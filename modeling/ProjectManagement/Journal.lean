import ProjectManagement.Library.Erasure
import ProjectManagement.Library.Relational
import ProjectManagement.System

/-!
The journal of a run: its accepted writes. Everything else, reads and failures alike, can be struck out; a
failed upload leaves a blob behind, which no row names and no answer shows.
-/

namespace ProjectManagement

open Library Library.Tx

/-! Two worlds that share the database: a route that does not touch the storage runs alike in both. -/

section Storage

variable {o : Blobs → Blobs → Prop} {D : Deployment} {c : Call} {u : User} {id : Uuid}

instance {errors : List ErrorDetail} : Blind Eq o (validated errors) := by unfold validated; infer_instance
instance {password : String} : Blind Eq o (hashPassword D c password) := by unfold hashPassword; infer_instance
instance {password : String} : Blind Eq o (enforcePasswordPolicy D password) := by unfold enforcePasswordPolicy; infer_instance

instance : Blind Eq o (UserRepository.get id) := by unfold UserRepository.get; infer_instance
instance {email : String} : Blind Eq o (UserRepository.getByEmail D email) := by unfold UserRepository.getByEmail; infer_instance
instance : Blind Eq o (UserRepository.add D u) := by unfold UserRepository.add UserRepository.addWith; infer_instance
instance {v : User} : Blind Eq o (UserRepository.flush D c u v) := by unfold UserRepository.flush UserRepository.flushWith; infer_instance

instance : Blind Eq o (getCurrentUser c) := by unfold getCurrentUser; infer_instance
instance : Blind Eq o (requireAdmin u) := by unfold requireAdmin; infer_instance

instance {p : UserRegister} : Blind Eq o (AuthService.register D c p) := by
  unfold AuthService.register AuthService.registerWith; infer_instance
instance {familyId : Uuid} : Blind Eq o (AuthService.issuePair D c u familyId) := by
  unfold AuthService.issuePair RefreshTokenRepository.add; infer_instance
instance {email password : String} : Blind Eq o (AuthService.login D c email password) := by unfold AuthService.login; infer_instance
instance {r : RefreshToken} : Blind Eq o (AuthService.rotate D c r) := by
  unfold AuthService.rotate RefreshTokenRepository.getByHash RefreshTokenRepository.revoke; infer_instance
instance {token : String} : Blind Eq o (AuthService.refresh D c token) := by
  unfold AuthService.refresh RefreshTokenRepository.getByHash RefreshTokenRepository.revokeFamily; infer_instance
instance {token : String} : Blind Eq o (AuthService.logout D token) := by
  unfold AuthService.logout RefreshTokenRepository.getByHash RefreshTokenRepository.revoke; infer_instance
instance {p : ChangePassword} : Blind Eq o (AuthService.changePassword D c u p) := by
  unfold AuthService.changePassword AuthService.changePasswordWith RefreshTokenRepository.revokeAllForUser; infer_instance

instance {sorter : Sorter User} {params : PageParams} : Blind Eq o (UserService.listUsersWith D sorter params) := by
  unfold UserService.listUsersWith; infer_instance
instance : Blind Eq o (UserService.getUser id u) := by unfold UserService.getUser; infer_instance
instance {p : UserCreate} : Blind Eq o (UserService.createUser D c p) := by
  unfold UserService.createUser UserService.createUserWith; infer_instance

instance {email : Field String} : Blind Eq o (UserService.checkEmail D email u) := by
  cases email <;> (unfold UserService.checkEmail; infer_instance)

instance {p : UserUpdate} : Blind Eq o (UserService.updateUser D c id p u) := by
  unfold UserService.updateUser UserService.updateUserWith; infer_instance
instance {p : UserRoleUpdate} : Blind Eq o (UserService.updateRole D c id p) := by
  unfold UserService.updateRole UserService.updateRoleWith; infer_instance
instance : Blind Eq o (UserService.deleteUser D c id u) := by
  unfold UserService.deleteUser UserService.deleteUserWith UserRepository.deleteWith; infer_instance

instance {event : DomainEvent} : Blind Eq o (EventBus.publish D c event) := by
  rw [EventBus.publish_eq]
  unfold NotificationRepository.add
  infer_instance

instance {userId : Uuid} {params : PageParams} : Blind Eq o (NotificationService.listForUser D userId params) := by
  unfold NotificationService.listForUser; infer_instance
instance {userId : Uuid} : Blind Eq o (NotificationService.markRead id userId) := by
  unfold NotificationService.markRead NotificationRepository.get; infer_instance
instance : Blind Eq o (NotificationService.markAllRead id) := by
  unfold NotificationService.markAllRead NotificationRepository.markAllRead; infer_instance

instance : Blind Eq o (ProjectRepository.get id) := by unfold ProjectRepository.get; infer_instance
instance {p q : Project} : Blind Eq o (ProjectRepository.flush D c p q) := by unfold ProjectRepository.flush; infer_instance
instance {userId : Uuid} : Blind Eq o (ProjectRepository.getMember id userId) := by unfold ProjectRepository.getMember; infer_instance
instance {userId : Uuid} : Blind Eq o (ProjectRepository.isMember id userId) := by unfold ProjectRepository.isMember; infer_instance
instance : Blind Eq o (requireProjectView id u) := by unfold requireProjectView projectAccessPolicy; infer_instance

instance {sorter : Sorter Project} {params : PageParams} : Blind Eq o (ProjectService.listProjectsWith D sorter u params) := by
  unfold ProjectService.listProjectsWith; infer_instance
instance : Blind Eq o (ProjectService.getProjectDetail id) := by
  unfold ProjectService.getProjectDetail ProjectRepository.getWithMembers; infer_instance
instance {p : ProjectCreate} : Blind Eq o (ProjectService.createProject D c p u) := by
  unfold ProjectService.createProject ProjectRepository.add; infer_instance
instance {p : ProjectUpdate} : Blind Eq o (ProjectService.updateProject D c id p) := by
  unfold ProjectService.updateProject; infer_instance
instance : Blind Eq o (ProjectService.deleteProject D c id) := by
  unfold ProjectService.deleteProject ProjectRepository.delete; infer_instance
instance {m : ProjectMember} : Blind Eq o (ProjectRepository.addMember D m) := by unfold ProjectRepository.addMember; infer_instance
set_option synthInstance.maxSize 256 in
instance {p : MemberAdd} : Blind Eq o (ProjectService.addMember D c id p u) := by
  unfold ProjectService.addMember; infer_instance
instance {userId : Uuid} : Blind Eq o (ProjectService.removeMember id userId) := by
  unfold ProjectService.removeMember ProjectRepository.removeMember; infer_instance

instance : Blind Eq o (TaskRepository.get id) := by unfold TaskRepository.get; infer_instance
instance {t : LoadedTask} : Blind Eq o (TaskRepository.reload t) := by unfold TaskRepository.reload; infer_instance
instance {t t' : Task} : Blind Eq o (TaskRepository.flush D c t t') := by unfold TaskRepository.flush; infer_instance
instance : Blind Eq o (mayAccess id u) := by unfold mayAccess; infer_instance
instance : Blind Eq o (getAccessibleTask id u) := by unfold getAccessibleTask; infer_instance
instance : Blind Eq o (Routes.accessibleTask c id) := by unfold Routes.accessibleTask; infer_instance

instance {sorter : Sorter Task} {params : PageParams} : Blind Eq o (TaskService.listForProjectWith D sorter id params) := by
  unfold TaskService.listForProjectWith; infer_instance
instance : Blind Eq o (TaskService.kanbanBoard D id) := by unfold TaskService.kanbanBoard; infer_instance
instance {p : TaskCreate} : Blind Eq o (TaskService.createTask D c p u) := by
  unfold TaskService.createTask TaskService.notifyAssignment TaskRepository.add; infer_instance
instance {t : LoadedTask} {p : TaskUpdate} : Blind Eq o (TaskService.updateTask D c t p u) := by
  unfold TaskService.updateTask TaskService.notifyAssignment; infer_instance
instance {t : LoadedTask} {p : TaskStatusUpdate} : Blind Eq o (TaskService.updateStatus D c t p) := by
  unfold TaskService.updateStatus; infer_instance
instance {t : LoadedTask} : Blind Eq o (TaskService.deleteTask D c t) := by
  unfold TaskService.deleteTask TaskRepository.delete; infer_instance

instance {m m' : Comment} : Blind Eq o (CommentRepository.flush D c m m') := by unfold CommentRepository.flush; infer_instance
instance : Blind Eq o (CommentService.get id) := by unfold CommentService.get CommentRepository.get; infer_instance
instance : Blind Eq o (CommentService.getOwned id u) := by unfold CommentService.getOwned; infer_instance
instance {params : PageParams} : Blind Eq o (CommentService.listForTask D id params) := by
  unfold CommentService.listForTask; infer_instance
instance {p : CommentPayload} : Blind Eq o (CommentService.create D c id p u) := by
  unfold CommentService.create CommentRepository.add CommentRepository.get; infer_instance
instance {p : CommentPayload} : Blind Eq o (CommentService.update D c id p u) := by unfold CommentService.update; infer_instance
instance : Blind Eq o (CommentService.delete D c id u) := by
  unfold CommentService.delete CommentRepository.delete; infer_instance
instance : Blind Eq o (Routes.accessibleComment id u) := by unfold Routes.accessibleComment; infer_instance

instance : Blind Eq o (FileRepository.get id) := by unfold FileRepository.get; infer_instance
instance {f : FileAttachment} : Blind Eq o (FileRepository.add D f) := by unfold FileRepository.add; infer_instance
instance : Blind Eq o (FileService.listForTask D id) := by unfold FileService.listForTask; infer_instance
instance : Blind Eq o (FileService.getAttachment id) := by unfold FileService.getAttachment; infer_instance

instance : Blind Eq o (AnalyticsService.dashboard D c) := by unfold AnalyticsService.dashboard; infer_instance
instance : Blind Eq o (AnalyticsService.projectAnalytics c id) := by unfold AnalyticsService.projectAnalytics; infer_instance

instance {message : Option String} {r : Project × List LoadedMember} : Blind Eq o (Routes.projectDetail message r) := by
  unfold Routes.projectDetail; infer_instance

end Storage

def Request.usesStorage : Request → Bool
  | uploadFile .. | downloadFile _ => true
  | _ => false

theorem handle_blind {o : Blobs → Blobs → Prop} {D : Deployment} {c : Call} {request : Request} (h : request.usesStorage = false) :
    Blind Eq o (handle D c request) := by
  cases request with
  | register p => unfold handle Routes.register Routes.registerWith; infer_instance
  | login email password => unfold handle Routes.login; infer_instance
  | refresh token => unfold handle Routes.refresh; infer_instance
  | logout token => unfold handle Routes.logout; infer_instance
  | me => unfold handle Routes.me; infer_instance
  | changePassword p => unfold handle Routes.changePassword Routes.changePasswordWith; infer_instance
  | listUsers params => unfold handle Routes.listUsers Routes.listUsersWith; infer_instance
  | createUser p => unfold handle Routes.createUser Routes.createUserWith; infer_instance
  | getUser id => unfold handle Routes.getUser; infer_instance
  | updateUser id p => unfold handle Routes.updateUser Routes.updateUserWith; infer_instance
  | updateRole id p => unfold handle Routes.updateRole Routes.updateRoleWith; infer_instance
  | deleteUser id => unfold handle Routes.deleteUser Routes.deleteUserWith; infer_instance
  | listProjects params => unfold handle Routes.listProjects Routes.listProjectsWith; infer_instance
  | createProject p => unfold handle Routes.createProject; infer_instance
  | getProject id => unfold handle Routes.getProject; infer_instance
  | updateProject id p => unfold handle Routes.updateProject; infer_instance
  | deleteProject id => unfold handle Routes.deleteProject; infer_instance
  | addMember id p => unfold handle Routes.addMember; infer_instance
  | removeMember id user => unfold handle Routes.removeMember; infer_instance
  | listProjectTasks id params => unfold handle Routes.listProjectTasks Routes.listProjectTasksWith; infer_instance
  | kanbanBoard id => unfold handle Routes.kanbanBoard; infer_instance
  | createTask p => unfold handle Routes.createTask; infer_instance
  | getTask id => unfold handle Routes.getTask; infer_instance
  | updateTask id p => unfold handle Routes.updateTask; infer_instance
  | updateTaskStatus id p => unfold handle Routes.updateTaskStatus; infer_instance
  | deleteTask id => unfold handle Routes.deleteTask; infer_instance
  | listComments id params => unfold handle Routes.listComments; infer_instance
  | createComment id p => unfold handle Routes.createComment; infer_instance
  | updateComment id p => unfold handle Routes.updateComment; infer_instance
  | deleteComment id => unfold handle Routes.deleteComment; infer_instance
  | listFiles id => unfold handle Routes.listFiles; infer_instance
  | uploadFile id file => exact absurd h (by simp [Request.usesStorage])
  | downloadFile id => exact absurd h (by simp [Request.usesStorage])
  | listNotifications params => unfold handle Routes.listNotifications; infer_instance
  | markRead id => unfold handle Routes.markRead; infer_instance
  | markAllRead => unfold handle Routes.markAllRead; infer_instance
  | dashboard => unfold handle Routes.dashboard; infer_instance
  | projectAnalytics id => unfold handle Routes.projectAnalytics; infer_instance

/-! What a route that uses the storage sees of it. -/

section Blobs

variable {K : String → Prop} {a b : Blobs} {key : String}

structure SameBlobs (K : String → Prop) (a b : Blobs) : Prop where
  same : ∀ key, K key → b key = a key
  absent : ∀ key, a key = none → b key = none

theorem SameBlobs.update (h : SameBlobs K a b) (key : String) (bytes : Option Bytes) :
    SameBlobs K (Function.update a key bytes) (Function.update b key bytes) := by
  constructor
  · intro other hother
    by_cases heq : other = key
    · rw [heq, Function.update_self, Function.update_self]
    · rw [Function.update_of_ne heq, Function.update_of_ne heq, h.same other hother]
  · intro other hother
    by_cases heq : other = key
    · rw [heq, Function.update_self] at hother
      rw [heq, Function.update_self, hother]
    · rw [Function.update_of_ne heq] at hother
      rw [Function.update_of_ne heq, h.absent other hother]

theorem SameBlobs.save {backend : Backend} {file : UploadFile} {maxSizeBytes : ℕ} (h : SameBlobs K a b) (hkey : K key) :
    (backend.save key file maxSizeBytes b).1 = (backend.save key file maxSizeBytes a).1 ∧
      SameBlobs K (backend.save key file maxSizeBytes a).2 (backend.save key file maxSizeBytes b).2 := by
  cases backend with
  | «local» =>
    simp only [Backend.save, LocalStorage.save]
    split
    · exact ⟨rfl, h⟩
    · split <;> exact ⟨rfl, h.update key _⟩
  | s3 =>
    simp only [Backend.save, S3Storage.save]
    split
    · exact ⟨rfl, h⟩
    · exact ⟨rfl, h.update key _⟩
  | azure =>
    simp only [Backend.save, AzureBlobStorage.save, h.same key hkey]
    split
    · exact ⟨rfl, h⟩
    · split
      · exact ⟨rfl, h⟩
      · exact ⟨rfl, h.update key _⟩

theorem localPath_congr {backend : Backend} (h : b key = a key) : backend.localPath key b = backend.localPath key a := by
  cases backend with
  | «local» => exact h
  | s3 => rfl
  | azure => rfl

theorem uploadFile_blind {D : Deployment} {c : Call} {id : Uuid} {file : UploadFile} (h : K (keyFor c.fresh.uuid4 (textOr file.filename ""))) :
    Blind Eq (SameBlobs K) (handle D c (.uploadFile id file)) := by
  have save : Blind Eq (SameBlobs K) (FileService.save D c file) := by
    refine ⟨.external fun a b hab => ?_⟩
    obtain ⟨hres, hafter⟩ := hab.save h
    refine ⟨?_, hafter⟩
    rw [hres]
    generalize (D.backend.save _ file _ a).1 = x
    cases x with
    | error e => exact .error e
    | ok stored => exact .ok rfl
  unfold handle Routes.uploadFile FileService.upload
  infer_instance

end Blobs

/-! Worlds no answer tells apart. -/

variable {D : Deployment} {c : Call} {i : Input} {e : Event} {es : List Event} {w v w' : World} {id : Uuid}

structure Indistinct (w v : World) : Prop where
  db : v.1 = w.1
  blobs : ∀ f ∈ w.1.fileAttachments.rows, v.2 f.storedFilename = w.2 f.storedFilename
  absent : ∀ key, w.2 key = none → v.2 key = none

theorem Indistinct.refl (w : World) : Indistinct w w := ⟨rfl, fun _ _ => rfl, fun _ h => h⟩

theorem Indistinct.freshIds (h : Indistinct w v) (fresh : FreshIds e w) : FreshIds e v where
  family := by
    rw [FreshFamily, h.db]
    exact fresh.family
  key := by
    intro name
    rw [h.db]
    exact ⟨h.absent _ (fresh.key name).1, (fresh.key name).2⟩

/-- The storage before an upload: the key the upload draws is free in both worlds. -/
theorem Indistinct.sameBlobs (h : Indistinct w v) {key : String} (fresh : w.2 key = none) :
    SameBlobs (fun k => k = key ∨ ∃ f ∈ w.1.fileAttachments.rows, f.storedFilename = k) w.2 v.2 := by
  refine ⟨?_, h.absent⟩
  rintro _ (rfl | ⟨f, hf, rfl⟩)
  · rw [h.absent _ fresh, fresh]
  · exact h.blobs f hf

theorem resolveDownloadPath_answer {f : FileAttachment} : (FileService.resolveDownloadPath D f).answer w =
    match D.backend.localPath f.storedFilename w.2 with
    | some bytes => .ok bytes
    | none => .error (.app (notFoundError "File not found in storage")) := by
  unfold Tx.answer FileService.resolveDownloadPath
  rw [Tx.bind_apply, Tx.external]
  cases D.backend.localPath f.storedFilename w.2 <;> rfl

theorem downloadFile_indistinct (h : Indistinct w v) :
    outcome D ⟨c, .downloadFile id⟩ v = outcome D ⟨c, .downloadFile id⟩ w := by
  refine run_bind_blind (m := getCurrentUser c) h.db fun actor hactor => ?_
  refine run_bind_blind (m := FileService.getAttachment id) h.db fun loaded hloaded => ?_
  refine run_bind_blind (m := getAccessibleTask loaded.row.taskId actor) h.db fun _ _ => ?_
  have hblob : v.2 loaded.row.storedFilename = w.2 loaded.row.storedFilename := by
    obtain ⟨f, hf, rfl, -⟩ := FileService.succeeds_getAttachment.mp hloaded
    exact h.blobs f (FileRepository.find_eq_some.mp hf).1
  rw [run_bind_pure, run_bind_pure, resolveDownloadPath_answer, resolveDownloadPath_answer, localPath_congr hblob]

/-- A request with a storage key of its own: the same answer, and what it leaves is not told apart either. -/
theorem Indistinct.step (h : Indistinct w v) (fresh : FreshKey (.request i) w) :
    outcome D i v = outcome D i w ∧ Indistinct (next D i w) (next D i v) := by
  rcases i with ⟨c, request⟩
  cases hstorage : request.usesStorage with
  | false =>
    have hblind : Blind Eq (fun a b => a = w.2 ∧ b = v.2) (handle D c request) := handle_blind hstorage
    obtain ⟨hres, hdb, hw, hv⟩ := hblind.agree.run (w := w) (v := v) h.db.symm ⟨rfl, rfl⟩
    have huploads : (Event.request ⟨c, request⟩).uploads = false := by
      cases request <;> first | rfl | simp [Request.usesStorage] at hstorage
    have hfiles : (next D ⟨c, request⟩ w).1.fileAttachments = w.1.fileAttachments :=
      (nextWorld_of_not_uploads (e := .request ⟨c, request⟩) huploads).2
    have hw' : (next D ⟨c, request⟩ w).2 = w.2 := hw
    have hv' : (next D ⟨c, request⟩ v).2 = v.2 := hv
    refine ⟨hres.eq.symm, hdb.symm, ?_, ?_⟩
    · rw [hw', hv', hfiles]
      exact h.blobs
    · rw [hw', hv']
      exact h.absent
  | true =>
    cases request with
    | downloadFile id =>
      have hkeep (w : World) : next D ⟨c, .downloadFile id⟩ w = w :=
        run_readOnly (m := Routes.downloadFile D c id) w
      rw [hkeep w, hkeep v]
      exact ⟨downloadFile_indistinct h, h⟩
    | uploadFile id file =>
      have hblind : Blind Eq (SameBlobs fun k => k = keyFor c.fresh.uuid4 (textOr file.filename "") ∨
          ∃ f ∈ w.1.fileAttachments.rows, f.storedFilename = k) (handle D c (.uploadFile id file)) := uploadFile_blind (Or.inl rfl)
      obtain ⟨hres, hdb, hblobs⟩ := hblind.agree.run (w := w) (v := v) h.db.symm (h.sameBlobs (fresh _).1)
      refine ⟨hres.eq.symm, hdb.symm, fun f hf => hblobs.same _ ?_, hblobs.absent⟩
      have effect := step_effect D ⟨c, .uploadFile id file⟩ w
      change f ∈ (next D ⟨c, .uploadFile id file⟩ w).1.fileAttachments.rows at hf
      generalize outcome D ⟨c, .uploadFile id file⟩ w = o at effect
      generalize next D ⟨c, .uploadFile id file⟩ w = w' at effect hf
      cases effect with
      | rejected => exact Or.inr ⟨f, hf, rfl⟩
      | uploadFailed => exact Or.inr ⟨f, hf, rfl⟩
      | answered reads => exact absurd reads (by simp [Request.reads])
      | fileUploaded caller task saved names rows =>
        rw [rows, List.mem_append, List.mem_singleton] at hf
        rcases hf with hf | rfl
        · exact Or.inr ⟨f, hf, rfl⟩
        · exact Or.inl (Backend.save_key saved)
    | _ => exact absurd hstorage (by simp [Request.usesStorage])

instance {o : Blobs → Blobs → Prop} {email password fullName : String} : Blind Eq o (seedAdmin D c email password fullName) := by
  unfold seedAdmin seedAdminWith; infer_instance

theorem Indistinct.seed {email password fullName : String} (h : Indistinct w v) :
    Indistinct (nextWorld D (.seedAdmin c email password fullName) w) (nextWorld D (.seedAdmin c email password fullName) v) := by
  have hblind : Blind Eq (fun a b => a = w.2 ∧ b = v.2) (seedAdmin D c email password fullName) := inferInstance
  obtain ⟨-, hdb, hw, hv⟩ := hblind.agree.run (w := w) (v := v) h.db.symm ⟨rfl, rfl⟩
  have hfiles := (nextWorld_of_not_uploads (D := D) (w := w) (e := .seedAdmin c email password fullName) rfl).2
  have hw' : (nextWorld D (.seedAdmin c email password fullName) w).2 = w.2 := hw
  have hv' : (nextWorld D (.seedAdmin c email password fullName) v).2 = v.2 := hv
  refine ⟨hdb.symm, ?_, ?_⟩
  · rw [hw', hv', hfiles]
    exact h.blobs
  · rw [hw', hv']
    exact h.absent

/-! The journal. -/

/-- An accepted write; a detected reuse is answered with an error, and revokes its family all the same. -/
def journaled (D : Deployment) : Event → World → Bool
  | .seedAdmin .., _ => true
  | .request i, w =>
    match outcome D i w with
    | .ok _ => !i.request.reads
    | .error e => e == .app AuthService.reuseDetected

abbrev journal (D : Deployment) : World → List Event → List Event := keeping (nextWorld D) (journaled D)

theorem next_of_reads (h : i.request.reads = true) : next D i w = w := (step_effect D i w).of_reads h

/-- What is not in the journal leaves at most a blob under a key that no row names. -/
theorem Indistinct.skip (h : Indistinct w v) (fresh : FreshIds e w) (hskip : journaled D e w = false) : Indistinct (nextWorld D e w) v := by
  cases e with
  | seedAdmin c email password fullName => exact absurd hskip (by simp [journaled])
  | request i =>
    change Indistinct (next D i w) v
    have effect := step_effect D i w
    cases ho : outcome D i w with
    | ok a =>
      simp only [journaled, ho, Bool.not_eq_false'] at hskip
      rw [next_of_reads hskip]
      exact h
    | error e =>
      simp only [journaled, ho, beq_eq_false_iff_ne] at hskip
      rw [ho] at effect
      generalize next D i w = w' at effect ⊢
      cases effect with
      | rejected => exact h
      | reuseDetected => exact absurd rfl hskip
      | @uploadFailed c d b e id file actor r caller task =>
        obtain ⟨hfree, hnames⟩ := fresh.key (textOr file.filename "")
        refine ⟨h.db, fun f hf => ?_, fun key habsent => ?_⟩
        · have hother : f.storedFilename ≠ keyFor c.fresh.uuid4 (textOr file.filename "") := hnames f hf
          change v.2 f.storedFilename = (D.backend.save _ file _ b).2 f.storedFilename
          rw [Backend.save_other hother]
          exact h.blobs f hf
        · by_cases hkey : key = keyFor c.fresh.uuid4 (textOr file.filename "")
          · exact h.absent key (hkey ▸ hfree)
          · change (D.backend.save _ file _ b).2 key = none at habsent
            rw [Backend.save_other hkey] at habsent
            exact h.absent key habsent

/-- The journal of a run leads to the same database, and to answers that nobody can tell from those after the whole run. -/
theorem journal_suffices (run : Execution D FreshIds World.initial es w) :
    ∃ v, Execution D FreshIds World.initial (journal D World.initial es) v ∧ v.1 = w.1 ∧
      ∀ i, FreshKey (.request i) w → outcome D i v = outcome D i w := by
  have kept : ∀ e w v, FreshIds e w → Indistinct w v → journaled D e w = true →
      FreshIds e v ∧ Indistinct (nextWorld D e w) (nextWorld D e v) := by
    intro e w v fresh h _
    refine ⟨h.freshIds fresh, ?_⟩
    cases e with
    | request i => exact (h.step fresh.key).2
    | seedAdmin c email password fullName => exact h.seed
  obtain ⟨v, hrun, h⟩ := run.erase kept (fun e w v fresh h hskip => h.skip fresh hskip) (.refl _)
  exact ⟨v, hrun, h.db, fun i fresh => (h.step fresh).1⟩

/-- Two reads, a refused change and an accepted one. -/
def taskVisits : List Event :=
  oneTask ++ sampleRequests 4 [(some 16, .me), (none, .me), (some 16, .updateTask 48 { title := .null }),
    (some 16, .updateTaskStatus 48 ⟨.done, none⟩)]

/-- PostgreSQL refuses the row for its content type, after the blob has been stored. -/
def refusedUpload : Event :=
  .request ⟨Call.sample 8 (some 16), .uploadFile 48 ⟨some "a.txt", some (String.ofList (List.replicate 256 'x')), [1, 2, 3]⟩⟩

theorem journal_suffices_sample : ∃ v,
    Execution .postgresql FreshIds World.initial
      (oneTask ++ [.request ⟨Call.sample 7 (some 16), .updateTaskStatus 48 ⟨.done, none⟩⟩]) v ∧
      v.1 = (nextWorld .postgresql refusedUpload (playFrom .postgresql World.initial taskVisits)).1 := by
  have hfree : freshRun .postgresql World.initial taskVisits = true := by decide +kernel
  obtain ⟨hblobs, hfiles⟩ := playFrom_of_freshRun hfree
  have fresh : FreshIds refusedUpload (playFrom .postgresql World.initial taskVisits) := by
    refine ⟨by unfold FreshFamily; decide +kernel, fun name => ⟨?_, ?_⟩⟩
    · rw [hblobs]
      rfl
    · rw [hfiles]
      simp [World.initial, Db.empty, Table.empty]
  have run := (execution_of_freshRun hfree (fun _ => rfl) rfl).append (.single fresh)
  have hjournal : journal .postgresql World.initial (taskVisits ++ [refusedUpload]) =
      oneTask ++ [.request ⟨Call.sample 7 (some 16), .updateTaskStatus 48 ⟨.done, none⟩⟩] := by
    have kept : labels (nextWorld .postgresql) (journaled .postgresql) World.initial (taskVisits ++ [refusedUpload]) =
        [true, true, true, false, false, false, true, false] := by decide +kernel
    rw [journal, keeping_eq_filter, kept]
    rfl
  obtain ⟨v, hv, hdb, -⟩ := journal_suffices run
  exact ⟨v, hjournal ▸ hv, hdb⟩

end ProjectManagement
