import ProjectManagement.FileRoundTrip
import ProjectManagement.Schema
import ProjectManagement.StorageAgreement

/-!
Uploads that are cut off. The blob is written first and the row after it, and only the row is rolled back. A fault is an
exception that comes from outside the code; without one the upload is the one of the system.
-/

namespace ProjectManagement

open Library

/-- What may fail once the file is saved. -/
inductive Later
  | insert
  | reload
  | response
  | commit
  deriving DecidableEq, Repr

structure Fault where
  storage : Outage := {}
  later : Option Later := none

section Upload

variable (D : Deployment) (c : Call) (fault : Fault)

def FileService.uploadFaulty (taskId : Uuid) (upload : UploadFile) (actor : User) : App LoadedFile := do
  let stored ← Tx.external (D.backend.saveWith fault.storage LocalStorage.chunkSize
    (keyFor c.fresh.uuid4 (textOr upload.filename "")) upload D.settings.maxUploadSizeBytes)
  let attachment := newAttachment D c taskId upload stored actor
  Tx.refuseIf (fault.later = some .insert) .unexpected
  FileRepository.add D attachment
  Tx.refuseIf (fault.later = some .reload) .unexpected
  let loaded ← FileRepository.get attachment.id
  Tx.orRaise loaded .unexpected

/-- The response, and the commit after the route. -/
def Routes.fileUploadedFaulty (loaded : LoadedFile) : App ApiResponse := do
  Tx.refuseIf (fault.later = some .response) .unexpected
  let attachment ← Tx.orRaise (FileOut.modelValidate loaded) .unexpected
  Tx.refuseIf (fault.later = some .commit) .unexpected
  pure { statusCode := 201, message := some "File uploaded", data := .attachment attachment }

def Routes.uploadFileFaulty (taskId : Uuid) (file : UploadFile) : App ApiResponse := do
  let r ← accessibleTask c taskId
  let loaded ← FileService.uploadFaulty D c fault r.2.row.id file r.1
  fileUploadedFaulty fault loaded

end Upload

/-- The system with a fault at each upload; the fault `{}` is none. -/
def nextFaulty (D : Deployment) : Event × Fault → World → World
  | (.request ⟨c, .uploadFile id file⟩, fault), w => ((Routes.uploadFileFaulty D c fault id file).run w).2
  | (e, _), w => nextWorld D e w

variable {D : Deployment} {c : Call} {fault : Fault} {outage : Outage} {w w' : World} {id : Uuid} {file : UploadFile}
  {key : String} {maxSizeBytes : ℕ} {blobs : Blobs}

/-! Without a fault. -/

theorem Routes.uploadFileFaulty_none : uploadFileFaulty D c {} id file = uploadFile D c id file := by
  have hservice : FileService.uploadFaulty D c {} = FileService.upload D c := by
    funext taskId upload actor
    simp only [FileService.uploadFaulty, FileService.upload, FileService.save, Backend.saveWith_none]
    rfl
  simp only [uploadFileFaulty, uploadFile, hservice]
  rfl

theorem nextFaulty_none (e : Event) (w : World) : nextFaulty D (e, {}) w = nextWorld D e w := by
  unfold nextFaulty
  split
  · next c id file fault h =>
    obtain ⟨rfl, rfl⟩ := Prod.mk.inj h
    rw [Routes.uploadFileFaulty_none]
    rfl
  · next h => rw [(Prod.mk.inj h).1]

/-! What the storage takes. -/

/-- The storage takes the file as a whole: it is not too large, and no call raises. -/
def Accepts (backend : Backend) (outage : Outage) (key : String) (file : UploadFile) (maxSizeBytes : ℕ) : Prop :=
  file.body.length ≤ maxSizeBytes ∧ backend.Uninterrupted outage LocalStorage.chunkSize key file.body.length

theorem Backend.saveWith_cases (backend : Backend) (free : blobs key = none) :
    (Accepts backend outage key file maxSizeBytes → backend.saveWith outage LocalStorage.chunkSize key file maxSizeBytes blobs =
      (.ok ⟨key, file.body.length⟩, Function.update blobs key (some file.body))) ∧
    (¬Accepts backend outage key file maxSizeBytes →
      ∃ e, backend.saveWith outage LocalStorage.chunkSize key file maxSizeBytes blobs = (.error e, blobs)) := by
  have positive : 0 < LocalStorage.chunkSize := by decide
  constructor
  · exact fun accepts => (saveWith_ok_iff positive free).mpr ⟨accepts, rfl, rfl⟩
  · intro h
    rcases hsave : backend.saveWith outage LocalStorage.chunkSize key file maxSizeBytes blobs with ⟨result, blobs'⟩
    cases result with
    | ok stored => exact absurd ((saveWith_ok_iff positive free).mp hsave).1 h
    | error e => exact ⟨e, by rw [saveWith_error positive free hsave]⟩

/-! One upload. -/

def uploadKey (c : Call) (file : UploadFile) : String := keyFor c.fresh.uuid4 (textOr file.filename "")

/-- One new row and one new blob under its name, or nothing. -/
def AllOrNothing (D : Deployment) (c : Call) (fault : Fault) (id : Uuid) (file : UploadFile) (w : World) : Prop :=
  match (Routes.uploadFileFaulty D c fault id file).run w with
  | (.ok _, w') => ∃ files f bytes,
      w' = ({ w.1 with fileAttachments := files }, Function.update w.2 f.storedFilename (some bytes)) ∧
        files.rows = w.1.fileAttachments.rows ++ [f] ∧ w.2 f.storedFilename = none ∧ f.sizeBytes = bytes.length
  | (.error _, w') => w' = w

def MayUpload (c : Call) (d : Db) (id : Uuid) : Prop := ∃ u r, CurrentUser c d u ∧ Accessible d u id r

/-- The database refuses the row: a name or a content type is too long for its column or holds a NUL, or the id is in use. -/
def RowRefused (D : Deployment) (c : Call) (file : UploadFile) (d : Db) : Prop :=
  unstorable D.engine ([textOr file.filename "unnamed", uploadKey c file] ++ file.contentType.toList) [] = true ∨
    ∃ f ∈ d.fileAttachments.rows, f.id = c.fresh.id

def FailsLate (fault : Fault) : Prop :=
  fault.later = some .insert ∨ fault.later = some .reload ∨ fault.later = some .response ∨ fault.later = some .commit

/-- The blob is written, and then something fails. -/
structure Orphans (D : Deployment) (c : Call) (fault : Fault) (id : Uuid) (file : UploadFile) (w : World) : Prop where
  allowed : MayUpload c w.1 id
  accepts : Accepts D.backend fault.storage (uploadKey c file) file D.settings.maxUploadSizeBytes
  fails : RowRefused D c file w.1 ∨ FailsLate fault

instance {u : User} : Tx.Uncommitted (FileService.uploadFaulty D c fault id file u) := by
  unfold FileService.uploadFaulty; infer_instance
instance {l : LoadedFile} : Tx.Contained (Routes.fileUploadedFaulty fault l) := by
  unfold Routes.fileUploadedFaulty; infer_instance
instance : Tx.Uncommitted (Routes.uploadFileFaulty D c fault id file) := by
  unfold Routes.uploadFileFaulty; infer_instance

theorem upload_refused (h : ¬MayUpload c w.1 id) : ∃ e, (Routes.uploadFileFaulty D c fault id file).run w = (.error e, w) := by
  unfold Routes.uploadFileFaulty
  rcases Tx.run_bind_readOnly (m := Routes.accessibleTask c id) w with herror | ⟨r, hr, -⟩
  · exact herror
  · obtain ⟨u, task, caller, access, -, -⟩ := Routes.succeeds_accessibleTask.mp hr
    exact absurd ⟨u, task, caller, access⟩ h

theorem upload_unsaved (allowed : MayUpload c w.1 id) (free : w.2 (uploadKey c file) = none)
    (h : ¬Accepts D.backend fault.storage (uploadKey c file) file D.settings.maxUploadSizeBytes) :
    ∃ e, (Routes.uploadFileFaulty D c fault id file).run w = (.error e, w) := by
  obtain ⟨u, r, caller, access⟩ := allowed
  obtain ⟨e, hsave⟩ := (D.backend.saveWith_cases free).2 h
  have hservice : (FileService.uploadFaulty D c fault (w.1.loadTask r).row.id file u).Raises ⟨w.1, w.1, w.2⟩ e ⟨w.1, w.1, w.2⟩ :=
    (Tx.raises_external hsave).bind
  have hroute : (Routes.uploadFileFaulty D c fault id file).Raises ⟨w.1, w.1, w.2⟩ e ⟨w.1, w.1, w.2⟩ :=
    (Routes.succeeds_accessibleTask.mpr ⟨u, r, caller, access, rfl, rfl⟩).bind_raises hservice.bind
  exact ⟨e, Tx.run_of_raises hroute⟩

theorem upload_blob (allowed : MayUpload c w.1 id) (free : w.2 (uploadKey c file) = none)
    (accepts : Accepts D.backend fault.storage (uploadKey c file) file D.settings.maxUploadSizeBytes) :
    ((Routes.uploadFileFaulty D c fault id file).run w).2.2 = Function.update w.2 (uploadKey c file) (some file.body) := by
  obtain ⟨u, r, caller, access⟩ := allowed
  have hsave := (D.backend.saveWith_cases free).1 accepts
  unfold Routes.uploadFileFaulty
  rw [Tx.run_outside, Tx.bind_apply,
    show Routes.accessibleTask c id ⟨w.1, w.1, w.2⟩ = (.ok (u, w.1.loadTask r), ⟨w.1, w.1, w.2⟩) from
      Routes.succeeds_accessibleTask.mpr ⟨u, r, caller, access, rfl, rfl⟩, Tx.bind_outside]
  unfold FileService.uploadFaulty
  rw [Tx.bind_outside]
  exact congrArg Prod.snd hsave

theorem upload_ok {a : ApiResponse} (accepts : Accepts D.backend fault.storage (uploadKey c file) file D.settings.maxUploadSizeBytes)
    (free : w.2 (uploadKey c file) = none) (ok : (Routes.uploadFileFaulty D c fault id file).run w = (.ok a, w')) :
    ¬(RowRefused D c file w.1 ∨ FailsLate fault) ∧ ∃ files f, w'.1 = { w.1 with fileAttachments := files } ∧
      files.rows = w.1.fileAttachments.rows ++ [f] ∧ f.storedFilename = uploadKey c file ∧ f.sizeBytes = file.body.length := by
  obtain ⟨t, h, rfl⟩ := Tx.run_ok.mp ok
  simp only [Routes.uploadFileFaulty, FileService.uploadFaulty, Routes.fileUploadedFaulty, Tx.succeeds_bind,
    Routes.succeeds_accessibleTask, Db.loadTask_row, Tx.succeeds_pure, ↓existsAndEq, and_true, Tx.succeeds_external,
    Tx.succeeds_refuseIf, FileRepository.succeeds_add, FileRepository.succeeds_get, Tx.succeeds_orRaise, exists_const] at h
  obtain ⟨actor, r, ⟨caller, access⟩, l, stored, b', d', ⟨saved, hinsert, inserted, hreload, -, -⟩, hresponse, out, -, hcommit, -, rfl⟩ := h
  have hsave : (Except.ok stored, b') =
      (.ok ⟨uploadKey c file, file.body.length⟩, Function.update w.2 (uploadKey c file) (some file.body)) :=
    saved.symm.trans ((D.backend.saveWith_cases free).1 accepts)
  obtain rfl := Except.ok.inj (Prod.mk.inj hsave).1
  obtain ⟨new, files, rows, rfl⟩ := Db.insertFileAttachment_ok inserted
  constructor
  · rintro (hrefused | hlate)
    · rcases hrefused with hlong | ⟨f, hf, hid⟩
      · have hfits : unstorable D.engine ([textOr file.filename "unnamed", uploadKey c file] ++ file.contentType.toList) [] = false :=
          (checked_ok inserted).1 (_, .unexpected) List.mem_cons_self
        exact absurd (hlong.symm.trans hfits) (by decide)
      · exact (new f hf).1 hid
    · rcases hlate with h | h | h | h
      · exact hinsert h
      · exact hreload h
      · exact hresponse h
      · exact hcommit h
  · exact ⟨files, _, rfl, rows, rfl, rfl⟩

theorem insertFileAttachment_new {f : FileAttachment} {d : Db} {u : User} {r : Task}
    (new : ∀ x ∈ d.fileAttachments.rows, x.id ≠ f.id ∧ x.storedFilename ≠ f.storedFilename)
    (fits : unstorable D.engine ([f.originalFilename, f.storedFilename] ++ f.contentType.toList) [] = false)
    (task : r ∈ d.tasks.rows) (hr : r.id = f.taskId) (uploader : u ∈ d.users.rows) (hu : u.id = f.uploadedBy) :
    ∃ files, files.rows = d.fileAttachments.rows ++ [f] ∧
      Db.insertFileAttachment D.engine f d = .ok { d with fileAttachments := files } := by
  obtain ⟨files, hinsert, rows⟩ := Table.insert?_of_new fun x hx => (new x hx).1
  refine ⟨files, rows, checked_eq_ok.mpr ⟨?_, congrArg (Option.map _) hinsert⟩⟩
  have hunique : d.fileAttachments.rows.any (fun x => x.storedFilename == f.storedFilename) = false := by
    simpa using fun x hx => (new x hx).2
  simp only [List.forall_mem_cons, List.not_mem_nil, false_imp_iff, implies_true, and_true]
  exact ⟨fits, hunique, dangling_of_mem task hr, dangling_of_mem uploader hu⟩

theorem upload_succeeds (allowed : MayUpload c w.1 id) (free : w.2 (uploadKey c file) = none)
    (names : ∀ f ∈ w.1.fileAttachments.rows, f.storedFilename ≠ uploadKey c file)
    (accepts : Accepts D.backend fault.storage (uploadKey c file) file D.settings.maxUploadSizeBytes)
    (h : ¬(RowRefused D c file w.1 ∨ FailsLate fault)) :
    ∃ a w', (Routes.uploadFileFaulty D c fault id file).run w = (.ok a, w') := by
  obtain ⟨u, r, caller, access⟩ := allowed
  obtain ⟨hrow, hlate⟩ := not_or.mp h
  obtain ⟨hlong, hnew⟩ := not_or.mp hrow
  simp only [FailsLate, not_or] at hlate
  have hu := UserRepository.find_eq_some.mp caller.found
  have hsave := (D.backend.saveWith_cases free).1 accepts
  let f := newAttachment D c r.id file ⟨uploadKey c file, file.body.length⟩ u
  obtain ⟨files, rows, inserted⟩ := insertFileAttachment_new (D := D) (f := f) (d := w.1) (r := r) (u := u)
    (fun x hx => ⟨fun hid => hnew ⟨x, hx, hid⟩, names x hx⟩) (Bool.eq_false_iff.mpr hlong) access.mem rfl hu.1 rfl
  let d' : Db := { w.1 with fileAttachments := files }
  have hfind : FileRepository.find f.id d' = some f := by
    apply FileRepository.find_eq_some.mpr
    exact ⟨by rw [rows]; exact List.mem_append_right _ (List.mem_singleton_self _), rfl⟩
  have huploader : d'.relatedUser f.uploadedBy = some u := Table.find?_key_eq_some.mpr ⟨hu.1, rfl⟩
  let b' := Function.update w.2 (uploadKey c file) (some file.body)
  have hservice : (FileService.uploadFaulty D c fault r.id file u).Succeeds ⟨w.1, w.1, w.2⟩ (d'.loadFile f) ⟨w.1, d', b'⟩ := by
    refine (Tx.succeeds_external.mpr ⟨b', hsave, rfl⟩).bind ?_
    refine Tx.Succeeds.seq (Tx.succeeds_refuseIf.mpr ⟨hlate.1, rfl⟩) ?_
    refine Tx.Succeeds.seq (FileRepository.succeeds_add.mpr ⟨d', inserted, rfl⟩) ?_
    refine Tx.Succeeds.seq (Tx.succeeds_refuseIf.mpr ⟨hlate.2.1, rfl⟩) ?_
    refine (FileRepository.succeeds_get.mpr ⟨rfl, rfl⟩).bind ?_
    exact Tx.succeeds_orRaise.mpr ⟨congrArg (Option.map d'.loadFile) hfind, rfl⟩
  have hout : FileOut.modelValidate (d'.loadFile f) = some ⟨f.id, f.taskId, f.uploadedBy, f.originalFilename, f.contentType,
      f.sizeBytes, UserOut.modelValidate u, f.createdAt⟩ := by
    rw [FileOut.modelValidate, Db.loadFile, huploader]
    rfl
  have hroute : (Routes.uploadFileFaulty D c fault id file).Succeeds ⟨w.1, w.1, w.2⟩ _ ⟨w.1, d', b'⟩ :=
    (Routes.succeeds_accessibleTask.mpr ⟨u, r, caller, access, rfl, rfl⟩).bind
      (hservice.bind
      (Tx.Succeeds.seq (Tx.succeeds_refuseIf.mpr ⟨hlate.2.2.1, rfl⟩)
      ((Tx.succeeds_orRaise.mpr ⟨hout, rfl⟩).bind
      (Tx.Succeeds.seq (Tx.succeeds_refuseIf.mpr ⟨hlate.2.2.2, rfl⟩)
      (Tx.succeeds_pure.mpr ⟨rfl, rfl⟩)))))
  exact ⟨_, _, Tx.run_of_succeeds hroute⟩

theorem Orphans.left (orphans : Orphans D c fault id file w) (free : w.2 (uploadKey c file) = none) :
    ∃ e, (Routes.uploadFileFaulty D c fault id file).run w =
      (.error e, w.1, Function.update w.2 (uploadKey c file) (some file.body)) := by
  have hblob := upload_blob (D := D) orphans.allowed free orphans.accepts
  rcases hrun : (Routes.uploadFileFaulty D c fault id file).run w with ⟨o, w'⟩
  rw [hrun] at hblob
  cases o with
  | ok a => exact absurd orphans.fails (upload_ok orphans.accepts free hrun).1
  | error e =>
    have hdb : w'.1 = w.1 := Tx.run_error_fst hrun
    exact ⟨e, by rw [← hdb, ← hblob]⟩

theorem allOrNothing_iff_not_orphans (fresh : FreshKey (.request ⟨c, .uploadFile id file⟩) w) :
    AllOrNothing D c fault id file w ↔ ¬Orphans D c fault id file w := by
  obtain ⟨free, names⟩ := fresh (textOr file.filename "")
  change w.2 (uploadKey c file) = none at free
  constructor
  · intro h orphans
    obtain ⟨e, hrun⟩ := orphans.left free
    rw [AllOrNothing, hrun] at h
    -- the key was free, and now it is not
    have hblob : Function.update w.2 (uploadKey c file) (some file.body) (uploadKey c file) = w.2 (uploadKey c file) :=
      congrFun (congrArg Prod.snd h) (uploadKey c file)
    rw [Function.update_self, free] at hblob
    exact absurd hblob (by simp)
  · intro hnone
    by_cases allowed : MayUpload c w.1 id
    · by_cases accepts : Accepts D.backend fault.storage (uploadKey c file) file D.settings.maxUploadSizeBytes
      · have kept : ¬(RowRefused D c file w.1 ∨ FailsLate fault) := fun fails => hnone ⟨allowed, accepts, fails⟩
        obtain ⟨a, w', hrun⟩ := upload_succeeds allowed free names accepts kept
        obtain ⟨-, files, f, hdb, rows, hname, hsize⟩ := upload_ok accepts free hrun
        have hblob := upload_blob (D := D) allowed free accepts
        rw [hrun] at hblob
        rw [AllOrNothing, hrun]
        exact ⟨files, f, file.body, Prod.ext hdb (by rw [hname]; exact hblob), rows, by rw [hname]; exact free, hsize⟩
      · obtain ⟨e, hrun⟩ := upload_unsaved allowed free accepts
        rw [AllOrNothing, hrun]
    · rw [AllOrNothing]
      obtain ⟨e, hrun⟩ : ∃ e, (Routes.uploadFileFaulty D c fault id file).run w = (.error e, w) := upload_refused allowed
      rw [hrun]

/-! Whole runs. -/

structure Matched (w : World) : Prop where
  rowOfBlob : ∀ key bytes, w.2 key = some bytes → ∃ f ∈ w.1.fileAttachments.rows, f.storedFilename = key
  blobOfRow : ∀ f ∈ w.1.fileAttachments.rows, ∃ bytes, w.2 f.storedFilename = some bytes ∧ f.sizeBytes = bytes.length

def LeavesOrphan (D : Deployment) : Event × Fault → World → Prop
  | (.request ⟨c, .uploadFile id file⟩, fault), w => Orphans D c fault id file w
  | _, _ => False

theorem Matched.append {files : Table FileAttachment} {f : FileAttachment} {bytes : Bytes} (matched : Matched w)
    (rows : files.rows = w.1.fileAttachments.rows ++ [f]) (free : w.2 f.storedFilename = none) (size : f.sizeBytes = bytes.length) :
    Matched ({ w.1 with fileAttachments := files }, Function.update w.2 f.storedFilename (some bytes)) where
  rowOfBlob := by
    intro key content (hkey : Function.update w.2 f.storedFilename (some bytes) key = some content)
    change ∃ x ∈ files.rows, x.storedFilename = key
    rw [rows]
    by_cases hname : key = f.storedFilename
    · exact ⟨f, List.mem_append_right _ (List.mem_singleton_self f), hname.symm⟩
    · rw [Function.update_of_ne hname] at hkey
      obtain ⟨x, hx, hxname⟩ := matched.rowOfBlob key content hkey
      exact ⟨x, List.mem_append_left _ hx, hxname⟩
  blobOfRow := by
    refine Table.forall_append (fun x hx => ?_) rows ⟨bytes, Function.update_self .., size⟩
    obtain ⟨content, hcontent, hxsize⟩ := matched.blobOfRow x hx
    have hname : x.storedFilename ≠ f.storedFilename := by
      intro heq
      rw [heq, free] at hcontent
      exact absurd hcontent (by simp)
    exact ⟨content, (Function.update_of_ne hname ..).trans hcontent, hxsize⟩

theorem AllOrNothing.matched (h : AllOrNothing D c fault id file w) (matched : Matched w) :
    Matched ((Routes.uploadFileFaulty D c fault id file).run w).2 := by
  unfold AllOrNothing at h
  rcases hrun : (Routes.uploadFileFaulty D c fault id file).run w with ⟨o, w'⟩
  rw [hrun] at h
  cases o with
  | error e =>
    obtain rfl : w' = w := h
    exact matched
  | ok a =>
    obtain ⟨files, f, bytes, rfl, rows, free, size⟩ := h
    exact matched.append rows free size

theorem nextFaulty_of_not_uploads {e : Event} (h : e.uploads = false) : nextFaulty D (e, fault) w = nextWorld D e w := by
  unfold nextFaulty
  split
  · next heq =>
    obtain ⟨rfl, -⟩ := Prod.mk.inj heq
    exact absurd h (by simp [Event.uploads])
  · next heq =>
    obtain ⟨rfl, -⟩ := Prod.mk.inj heq
    rfl

theorem Matched.step {i : Event × Fault} (matched : Matched w) (fresh : FreshKey i.1 w) (h : ¬LeavesOrphan D i w) :
    Matched (nextFaulty D i w) := by
  obtain ⟨e, fault⟩ := i
  cases hu : e.uploads with
  | false =>
    rw [nextFaulty_of_not_uploads hu]
    obtain ⟨hblobs, hfiles⟩ := nextWorld_of_not_uploads (D := D) (w := w) hu
    constructor
    · rw [hblobs, hfiles]
      exact matched.rowOfBlob
    · rw [hblobs, hfiles]
      exact matched.blobOfRow
  | true =>
    unfold Event.uploads at hu
    split at hu
    · exact ((allOrNothing_iff_not_orphans fresh).mpr h).matched matched
    · exact absurd hu (by decide)

theorem Orphans.unmatched (orphans : Orphans D c fault id file w) (fresh : FreshKey (.request ⟨c, .uploadFile id file⟩) w) :
    ∃ e w', (Routes.uploadFileFaulty D c fault id file).run w = (.error e, w') ∧ w'.1 = w.1 ∧
      w'.2 (uploadKey c file) = some file.body ∧ ¬Matched w' := by
  obtain ⟨free, names⟩ := fresh (textOr file.filename "")
  obtain ⟨e, hrun⟩ := orphans.left free
  refine ⟨e, _, hrun, rfl, Function.update_self .., fun matched => ?_⟩
  obtain ⟨f, hf, hname⟩ := matched.rowOfBlob (uploadKey c file) file.body (Function.update_self ..)
  exact names f hf hname

theorem matched_initial : Matched World.initial :=
  ⟨fun _ _ h => absurd h (by simp [World.initial]), fun _ h => absurd h (by simp [World.initial, Db.empty, Table.empty])⟩

/-- An upload is all or nothing exactly when nothing fails after its blob; where that is so of every upload, blobs and rows
correspond in every state. -/
theorem upload_atomic (D : Deployment) :
    (∀ c fault id file w, FreshKey (.request ⟨c, .uploadFile id file⟩) w →
      (AllOrNothing D c fault id file w ↔ ¬Orphans D c fault id file w)) ∧
    ∀ es w, Run (nextFaulty D) (fun i w => FreshKey i.1 w ∧ ¬LeavesOrphan D i w) World.initial es w → Matched w := by
  constructor
  · exact fun c fault id file w fresh => allOrNothing_iff_not_orphans fresh
  · intro es w run
    exact run.invariant (I := Matched) (fun i w ok matched => matched.step ok.1 ok.2) matched_initial

theorem Orphans.not_allOrNothing (orphans : Orphans D c fault id file w) (fresh : FreshKey (.request ⟨c, .uploadFile id file⟩) w) :
    ¬AllOrNothing D c fault id file w := fun h => (allOrNothing_iff_not_orphans fresh).mp h orphans

theorem run_of_freshRun {es : List Event} (h : freshRun D w es = true) (blobs : ∀ key, w.2 key = none)
    (files : w.1.fileAttachments.rows = []) :
    Run (nextFaulty D) (fun i w => FreshKey i.1 w ∧ ¬LeavesOrphan D i w) w (es.map fun e => (e, {})) (playFrom D w es) := by
  induction es generalizing w with
  | nil => exact .nil w
  | cons e es ih =>
    have huploads : e.uploads = false := by
      simp only [freshRun, Bool.and_eq_true, Bool.not_eq_true'] at h
      exact h.1.1
    obtain ⟨hblobs, hfiles⟩ := nextWorld_of_not_uploads (D := D) (w := w) huploads
    have hnone : ¬LeavesOrphan D (e, {}) w := by
      unfold LeavesOrphan
      split
      · next heq =>
        obtain ⟨rfl, -⟩ := Prod.mk.inj heq
        exact absurd huploads (by simp [Event.uploads])
      · exact id
    refine .cons ⟨fun name => ⟨blobs _, by simp [files]⟩, hnone⟩ ?_
    rw [nextFaulty_none]
    apply ih
    · exact (Bool.and_eq_true _ _ ▸ h).2
    · intro key
      rw [hblobs]
      exact blobs key
    · rw [hfiles]
      exact files

theorem fresh_upload {D : Deployment} (h : freshRun D World.initial oneTask = true) (file : UploadFile) :
    FreshKey (.request ⟨Call.sample 4 (some 16), .uploadFile 48 file⟩) (playFrom D World.initial oneTask) := by
  obtain ⟨hblobs, hfiles⟩ := playFrom_of_freshRun h
  intro name
  rw [hblobs, hfiles]
  exact ⟨rfl, by simp [World.initial, Db.empty, Table.empty]⟩

def sampleFile : UploadFile := ⟨some "a.txt", some "text/plain", [1, 2, 3]⟩

theorem upload_atomic_sample :
    AllOrNothing .sample (Call.sample 4 (some 16)) {} 48 sampleFile (playFrom .sample World.initial oneTask) ∧
      Matched (nextFaulty .sample (.request ⟨Call.sample 4 (some 16), .uploadFile 48 sampleFile⟩, {})
        (playFrom .sample World.initial oneTask)) := by
  have hfree : freshRun .sample World.initial oneTask = true := by decide +kernel
  have fresh := fresh_upload hfree sampleFile
  have kept : ¬Orphans .sample (Call.sample 4 (some 16)) {} 48 sampleFile (playFrom .sample World.initial oneTask) := by
    intro orphans
    rcases orphans.fails with (hlong | ⟨f, hf, -⟩) | hlate
    · exact absurd hlong (by decide +kernel)
    · rw [(playFrom_of_freshRun hfree).2] at hf
      exact absurd hf (by simp [World.initial, Db.empty, Table.empty])
    · exact absurd hlate (by simp [FailsLate])
  constructor
  · exact ((upload_atomic .sample).1 _ _ _ _ _ fresh).mpr kept
  · have run := run_of_freshRun hfree (fun _ => rfl) rfl
    exact (upload_atomic .sample).2 _ _ (run.append (.single ⟨fresh, kept⟩))

def longType : UploadFile := ⟨some "a.txt", some (String.ofList (List.replicate 256 'x')), [1, 2, 3]⟩

theorem longType_refused (d : Db) : RowRefused .postgresql (Call.sample 4 (some 16)) longType d := by
  have hlong : 255 < (String.ofList (List.replicate 256 'x')).length := by
    rw [String.length_ofList, List.length_replicate]
    decide
  have henforced : Deployment.postgresql.engine.enforcesLengths = true := by decide +kernel
  have hany : longType.contentType.toList.any (fun s => decide (255 < s.length)) = true :=
    List.any_eq_true.mpr ⟨_, List.mem_singleton_self _, decide_eq_true hlong⟩
  apply Or.inl
  rw [unstorable, tooLong, henforced, Bool.true_and, List.any_append, hany, Bool.or_true, Bool.true_or]

/-- The row is refused for its content type, and the blob stays. -/
theorem refused_row_leaves_blob : ∃ w e w', Reachable .postgresql w ∧
    FreshKey (.request ⟨Call.sample 4 (some 16), .uploadFile 48 longType⟩) w ∧
    (Routes.uploadFile .postgresql (Call.sample 4 (some 16)) 48 longType).run w = (.error e, w') ∧ w'.1 = w.1 ∧
    w'.2 (uploadKey (Call.sample 4 (some 16)) longType) = some longType.body ∧
    ¬AllOrNothing .postgresql (Call.sample 4 (some 16)) {} 48 longType w ∧ ¬Matched w' := by
  let admin : User := newUser .postgresql (Call.sample 1 none) "admin@ats.com" ":Admin@12345" "System Administrator" .admin
  let task : Task := newTask .postgresql (Call.sample 3 none) { projectId := 32, title := "T" } 1000 admin
  have hfree : freshRun .postgresql World.initial oneTask = true := by decide +kernel
  have fresh := fresh_upload hfree longType
  have caller : CurrentUser (Call.sample 4 (some 16)) (playFrom .postgresql World.initial oneTask).1 admin :=
    ⟨⟨⟨true, some 16, "", "access", 0, 1000⟩, by decide +kernel, rfl⟩, by decide +kernel, rfl⟩
  have access : Accessible (playFrom .postgresql World.initial oneTask).1 admin 48 task := ⟨by decide +kernel, Or.inl rfl⟩
  have accepts : Accepts .local {} (uploadKey (Call.sample 4 (some 16)) longType) longType
      Deployment.postgresql.settings.maxUploadSizeBytes :=
    ⟨by decide +kernel, by decide +kernel, rfl, ⟨fun _ _ => rfl, fun _ _ => rfl⟩, rfl⟩
  have orphans : Orphans .postgresql (Call.sample 4 (some 16)) {} 48 longType (playFrom .postgresql World.initial oneTask) :=
    ⟨⟨admin, task, caller, access⟩, accepts, Or.inl (longType_refused _)⟩
  obtain ⟨e, w', hrun, hdb, blob, unmatched⟩ := orphans.unmatched fresh
  rw [Routes.uploadFileFaulty_none] at hrun
  exact ⟨_, e, w', reachable_of_freshRun hfree, fresh, hrun, hdb, blob, orphans.not_allOrNothing fresh, unmatched⟩

end ProjectManagement
