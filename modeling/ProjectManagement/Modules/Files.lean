import ProjectManagement.Modules.Tasks

/-! File attachments: the row in the database, the bytes in the storage backend. -/

namespace ProjectManagement

open Library

variable (D : Deployment) (c : Call)

structure FileOut where
  id : Uuid
  taskId : Uuid
  uploadedBy : Uuid
  originalFilename : String
  contentType : Option String
  sizeBytes : ℕ
  uploader : UserOut
  createdAt : Time
  deriving DecidableEq, Repr

structure LoadedFile where
  row : FileAttachment
  uploader : Option User

/-- An attachment without an uploader row does not validate. -/
def FileOut.modelValidate (f : LoadedFile) : Option FileOut :=
  f.uploader.map fun u => ⟨f.row.id, f.row.taskId, f.row.uploadedBy, f.row.originalFilename, f.row.contentType,
    f.row.sizeBytes, UserOut.modelValidate u, f.row.createdAt⟩

def Db.loadFile (d : Db) (f : FileAttachment) : LoadedFile := ⟨f, d.relatedUser f.uploadedBy⟩

@[simp] theorem Db.loadFile_row (d : Db) (f : FileAttachment) : (d.loadFile f).row = f := rfl

namespace FileRepository

def find (fileId : Uuid) (d : Db) : Option FileAttachment := d.fileAttachments.rows.find? (fun f => f.id == fileId)

def get (fileId : Uuid) : App (Option LoadedFile) := Tx.query fun d => (find fileId d).map d.loadFile

def listForTask (taskId : Uuid) (d : Db) : List FileAttachment :=
  orderBy D.engine [desc fun f => .number f.createdAt]
    (d.fileAttachments.rows.filter (fun f => f.taskId == taskId))

def add (f : FileAttachment) : App Unit := Tx.execute (Db.insertFileAttachment D.engine f)

end FileRepository

/-- `text or fallback`. -/
def textOr (text : Option String) (fallback : String) : String := (text.filter (fun s => s ≠ "")).getD fallback

def newAttachment (taskId : Uuid) (upload : UploadFile) (stored : StoredFile) (actor : User) : FileAttachment :=
  ⟨c.fresh.id, taskId, actor.id, textOr upload.filename "unnamed", stored.key, upload.contentType, stored.sizeBytes,
    c.stamp D⟩

namespace FileService

def listForTask (taskId : Uuid) : App (List LoadedFile) :=
  Tx.query fun d => (FileRepository.listForTask D taskId d).map d.loadFile

/-- `storage.save` under the key drawn for this upload. -/
def save (upload : UploadFile) : App StoredFile :=
  Tx.external (D.backend.save (keyFor c.fresh.uuid4 (textOr upload.filename "")) upload D.settings.maxUploadSizeBytes)

def upload (taskId : Uuid) (upload : UploadFile) (actor : User) : App LoadedFile := do
  let stored ← save D c upload
  let attachment := newAttachment D c taskId upload stored actor
  FileRepository.add D attachment
  let loaded ← FileRepository.get attachment.id
  Tx.orRaise loaded .unexpected -- `assert loaded is not None`

def getAttachment (fileId : Uuid) : App LoadedFile := do
  let found ← FileRepository.get fileId
  Tx.orRaise found (.app (notFoundError "File not found"))

def resolveDownloadPath (f : FileAttachment) : App Bytes := do
  let path ← Tx.external (fun blobs => (.ok (D.backend.localPath f.storedFilename blobs), blobs))
  Tx.orRaise path (.app (notFoundError "File not found in storage"))

end FileService

section Specs

variable {D c} {s t : Session Db Blobs} {d : Db} {f : FileAttachment} {l : LoadedFile} {actor : User}
  {id taskId : Uuid} {x : Unit}

namespace FileRepository

theorem find_eq_some : find id d = some f ↔ f ∈ d.fileAttachments.rows ∧ f.id = id :=
  Table.find?_key_eq_some

@[simp] theorem succeeds_get {o : Option LoadedFile} :
    (get id).Succeeds s o t ↔ o = (find id s.working).map s.working.loadFile ∧ t = s := by
  simp only [get, Tx.succeeds_query]

@[simp] theorem succeeds_add :
    (add D f).Succeeds s x t ↔
      ∃ d, Db.insertFileAttachment D.engine f s.working = .ok d ∧ t = { s with working := d } := by
  simp only [add, Tx.succeeds_execute]

instance : Tx.ReadOnly (get id) := by unfold get; infer_instance
instance : Tx.Contained (add D f) := by unfold add; infer_instance

end FileRepository

namespace FileService

@[simp] theorem succeeds_getAttachment :
    (getAttachment id).Succeeds s l t ↔
      ∃ f, FileRepository.find id s.working = some f ∧ l = s.working.loadFile f ∧ t = s := by
  simp only [getAttachment, Tx.succeeds_bind, FileRepository.succeeds_get, Tx.succeeds_orRaise]
  constructor
  · rintro ⟨_, _, ⟨rfl, rfl⟩, hl, rfl⟩
    obtain ⟨f, hf, rfl⟩ := Option.map_eq_some_iff.mp hl
    exact ⟨f, hf, rfl, rfl⟩
  · rintro ⟨f, hf, rfl, rfl⟩
    exact ⟨_, _, ⟨rfl, rfl⟩, by rw [hf]; rfl, rfl⟩

@[simp] theorem succeeds_resolveDownloadPath {bytes : Bytes} :
    (resolveDownloadPath D f).Succeeds s bytes t ↔
      D.backend.localPath f.storedFilename s.outside = some bytes ∧ t = s := by
  simp only [resolveDownloadPath, Tx.succeeds_bind, Tx.succeeds_external, Tx.succeeds_orRaise, Prod.mk.injEq,
    Except.ok.injEq]
  constructor
  · rintro ⟨_, _, ⟨_, ⟨rfl, rfl⟩, rfl⟩, h, rfl⟩
    exact ⟨h, rfl⟩
  · rintro ⟨h, rfl⟩
    exact ⟨_, _, ⟨_, ⟨rfl, rfl⟩, rfl⟩, h, rfl⟩

instance : Tx.ReadOnly (listForTask D id) := by unfold listForTask; infer_instance
instance : Tx.ReadOnly (getAttachment id) := by unfold getAttachment; infer_instance
instance : Tx.ReadOnly (resolveDownloadPath D f) := by
  unfold resolveDownloadPath
  exact @Tx.instReadOnlyBind _ _ _ _ _ _ _ ⟨fun _ => rfl⟩ fun _ => inferInstance
instance {u : UploadFile} : Tx.Uncommitted (save D c u) := by unfold save; infer_instance
instance {u : UploadFile} : Tx.Uncommitted (upload D c taskId u actor) := by unfold upload; infer_instance

end FileService

end Specs

end ProjectManagement
