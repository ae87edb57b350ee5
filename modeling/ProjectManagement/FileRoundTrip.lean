import ProjectManagement.System

/-! Upload and download: what comes back is what was sent, on the local backend and on no other. -/

namespace ProjectManagement

open Library

variable {D : Deployment} {w w' : World} {e : Event} {c : Call} {id : Uuid} {f : FileAttachment} {bytes : Bytes}

structure Stored (f : FileAttachment) (bytes : Bytes) (w : World) : Prop where
  row : f ∈ w.1.fileAttachments.rows
  blob : w.2 f.storedFilename = some bytes

theorem nextWorld_blobs (D : Deployment) (e : Event) (w : World) {key : String}
    (hkey : ∀ name, key ≠ keyFor e.call.fresh.uuid4 name) : (nextWorld D e w).2 key = w.2 key := by
  refine nextWorld_cases (P := fun w' => w'.2 key = w.2 key) e ?_ rfl ?_
  · rintro i o w' rfl effect
    cases effect with
    | fileUploaded caller task saved names rows =>
      obtain rfl := congrArg Prod.snd saved
      exact Backend.save_other (hkey _)
    | uploadFailed caller task => exact Backend.save_other (hkey _)
    | _ => rfl
  · exact fun users u _ _ _ => rfl

theorem nextWorld_attachments (D : Deployment) (e : Event) (w : World) (hf : f ∈ w.1.fileAttachments.rows) :
    f ∈ (nextWorld D e w).1.fileAttachments.rows := by
  refine nextWorld_cases (P := fun w' => f ∈ w'.1.fileAttachments.rows) e ?_ hf ?_
  · rintro i o w' rfl effect
    cases effect with
    | fileUploaded caller task saved names rows => simp [rows, hf]
    | _ => exact hf
  · exact fun users u _ _ _ => hf

theorem Stored.step (h : Stored f bytes w) (fresh : FreshKey e w) : Stored f bytes (nextWorld D e w) where
  row := nextWorld_attachments D e w h.row
  blob := by
    rw [nextWorld_blobs D e w]
    · exact h.blob
    · intro name he
      have hnone := (fresh name).1
      rw [← he, h.blob] at hnone
      exact absurd hnone (by simp)

theorem stored_of_upload {file : UploadFile} {a : ApiResponse} (h : outcome D ⟨c, .uploadFile id file⟩ w = .ok a) :
    ∃ f, f.taskId = id ∧ f.id = c.fresh.id ∧ f ∈ (next D ⟨c, .uploadFile id file⟩ w).1.fileAttachments.rows ∧
      (D.backend = .local → Stored f file.body (next D ⟨c, .uploadFile id file⟩ w)) := by
  have effect := step_effect D ⟨c, .uploadFile id file⟩ w
  rw [h] at effect
  generalize next D ⟨c, .uploadFile id file⟩ w = w' at effect ⊢
  cases effect with
  | answered reads => exact absurd reads (by simp [Request.reads])
  | @fileUploaded _ d b b' _ _ _ actor r stored files caller task saved names rows =>
    have hmem : newAttachment D c id file stored actor ∈ files.rows := by simp [rows]
    refine ⟨_, rfl, rfl, hmem, fun hlocal => ⟨hmem, ?_⟩⟩
    rw [hlocal] at saved
    obtain ⟨hblob, rfl⟩ := LocalStorage.save_ok saved
    exact hblob

theorem FileOut.modelValidate_ids {l : LoadedFile} {out : FileOut} (h : FileOut.modelValidate l = some out) :
    out.id = l.row.id ∧ out.taskId = l.row.taskId := by
  obtain ⟨u, -, rfl⟩ := Option.map_eq_some_iff.mp h
  exact ⟨rfl, rfl⟩

theorem upload_answer {file : UploadFile} {a : ApiResponse} (h : outcome D ⟨c, .uploadFile id file⟩ w = .ok a) :
    ∃ out, a.data = .attachment out ∧ out.id = c.fresh.id := by
  obtain ⟨t, ht, -⟩ := succeeds_of_outcome h
  simp only [handle, Routes.uploadFile, FileService.upload, Tx.succeeds_bind, FileRepository.succeeds_get, Tx.succeeds_orRaise,
    Tx.succeeds_pure] at ht
  obtain ⟨r, _, -, l, _, ⟨stored, _, -, _, v, -, _, _, ⟨rfl, rfl⟩, hl, rfl⟩, out, _, ⟨hout, rfl⟩, rfl, rfl⟩ := ht
  obtain ⟨f, hf, rfl⟩ := Option.map_eq_some_iff.mp hl
  refine ⟨out, rfl, ?_⟩
  rw [(FileOut.modelValidate_ids hout).1]
  exact (FileRepository.find_eq_some.mp hf).2

theorem download_ok_iff {u : User} {t : Task} (hf : f ∈ w.1.fileAttachments.rows) (caller : CurrentUser c w.1 u)
    (access : Accessible w.1 u f.taskId t) :
    (∃ name mediaType, outcome D ⟨c, .downloadFile f.id⟩ w = .ok { data := .file bytes name mediaType }) ↔
      D.backend.localPath f.storedFilename w.2 = some bytes := by
  have hfind : FileRepository.find f.id w.1 = some f := FileRepository.find_eq_some.mpr ⟨hf, rfl⟩
  have hrun : ∀ {a v}, (Routes.downloadFile D c f.id).run w = (.ok a, v) ↔
      ∃ bytes, D.backend.localPath f.storedFilename w.2 = some bytes ∧ v = w ∧
        a = { data := .file bytes f.originalFilename (textOr f.contentType "application/octet-stream") } := by
    intro a v
    rw [Tx.run_ok]
    simp only [Routes.downloadFile, Tx.succeeds_bind, succeeds_getCurrentUser, FileService.succeeds_getAttachment,
      succeeds_getAccessibleTask, FileService.succeeds_resolveDownloadPath, Tx.succeeds_pure]
    constructor
    · rintro ⟨_, ⟨_, _, ⟨-, rfl⟩, _, _, ⟨g, hg, rfl, rfl⟩, _, _, ⟨_, -, -, rfl⟩, bytes, _, ⟨hpath, rfl⟩, rfl, rfl⟩, rfl⟩
      obtain rfl := Option.some.inj (hfind.symm.trans hg)
      exact ⟨bytes, hpath, rfl, rfl⟩
    · rintro ⟨bytes, hpath, rfl, rfl⟩
      exact ⟨_, ⟨u, _, ⟨caller, rfl⟩, _, _, ⟨f, hfind, rfl, rfl⟩, _, _, ⟨t, access, rfl, rfl⟩, bytes, _, ⟨hpath, rfl⟩,
        rfl, rfl⟩, rfl⟩
  constructor
  · rintro ⟨name, mediaType, h⟩
    obtain ⟨bytes', hpath, -, ha⟩ := hrun.mp (show _ = (_, next D ⟨c, .downloadFile f.id⟩ w) from Prod.ext h rfl)
    simp only [ApiResponse.mk.injEq, Data.file.injEq] at ha
    rw [hpath, ha.2.2.1.1]
  · intro hpath
    exact ⟨_, _, congrArg Prod.fst (hrun.mpr ⟨bytes, hpath, rfl, rfl⟩)⟩

def Serves (D : Deployment) (c : Call) (fileId : Uuid) (bytes : Bytes) (w : World) : Prop :=
  ∃ name mediaType, outcome D ⟨c, .downloadFile fileId⟩ w = .ok { data := .file bytes name mediaType }

/-- An uploaded file comes back exactly when the local backend is the configured one. -/
theorem upload_served_iff {file : UploadFile} {a : ApiResponse}
    (h : outcome D ⟨c, .uploadFile id file⟩ w = .ok a) :
    ∃ out, a.data = .attachment out ∧
      ∀ es w', Execution D FreshKey (next D ⟨c, .uploadFile id file⟩ w) es w' →
        ∀ c' u t, CurrentUser c' w'.1 u → Accessible w'.1 u id t →
          (Serves D c' out.id file.body w' ↔ D.settings.storageBackend.toLower = "local") := by
  obtain ⟨out, hdata, hid⟩ := upload_answer h
  obtain ⟨f, rfl, hf, hrow, hstored⟩ := stored_of_upload h
  refine ⟨out, hdata, fun es w' run c' u t caller access => ?_⟩
  have hrow' : f ∈ w'.1.fileAttachments.rows :=
    run.invariant (I := fun w => f ∈ w.1.fileAttachments.rows) (fun e w _ inv => nextWorld_attachments D e w inv) hrow
  rw [Serves, hid, ← hf, download_ok_iff hrow' caller access, Backend.localPath_eq_some,
    ← getStorage_local D.configured]
  constructor
  · exact And.left
  · intro hlocal
    have stored : Stored f file.body w' :=
      run.invariant (I := Stored f file.body) (fun e w fresh inv => inv.step fresh) (hstored hlocal)
    exact ⟨hlocal, stored.blob⟩

theorem reader_of_getTask {a : ApiResponse} (h : outcome D ⟨c, .getTask id⟩ w = .ok a) :
    ∃ u t, CurrentUser c w.1 u ∧ Accessible w.1 u id t := by
  obtain ⟨t, ht, -⟩ := succeeds_of_outcome h
  simp only [handle, Routes.getTask, Tx.succeeds_bind, Routes.succeeds_accessibleTask] at ht
  obtain ⟨_, _, ⟨u, task, caller, access, -⟩, -⟩ := ht
  exact ⟨u, task, caller, access⟩

def Deployment.sampleS3 : Deployment :=
  { Deployment.sample with
    settings := { storageBackend := "s3", s3Bucket := "bucket" }, backend := .s3, configured := by decide +kernel }

def sampleUpload : Input := ⟨Call.sample 4 (some 16), .uploadFile 48 ⟨some "a.txt", some "text/plain", [1, 2, 3]⟩⟩

theorem upload_served_iff_sample :
    ∃ out a, outcome .sample sampleUpload (playFrom .sample World.initial oneTask) = .ok a ∧ a.data = .attachment out ∧
      Serves .sample (Call.sample 5 (some 16)) out.id [1, 2, 3]
        (next .sample sampleUpload (playFrom .sample World.initial oneTask)) := by
  obtain ⟨a, ha⟩ := exists_of_isOk (o := outcome .sample sampleUpload (playFrom .sample World.initial oneTask))
    (by decide +kernel)
  obtain ⟨b, hb⟩ := exists_of_isOk (o := outcome .sample ⟨Call.sample 5 (some 16), .getTask 48⟩
    (next .sample sampleUpload (playFrom .sample World.initial oneTask))) (by decide +kernel)
  obtain ⟨u, t, caller, access⟩ := reader_of_getTask hb
  obtain ⟨out, hdata, hserves⟩ := upload_served_iff ha
  exact ⟨out, a, ha, hdata, (hserves [] _ (.nil _) _ u t caller access).mpr (by decide +kernel)⟩

/-- Accepted by a bucket, the same file is there and its task is readable, but the download is a 404. -/
theorem bucket_upload_not_served :
    ∃ w, Reachable .sampleS3 w ∧ (outcome .sampleS3 sampleUpload w).isOk = true ∧
      (∃ f ∈ (next .sampleS3 sampleUpload w).1.fileAttachments.rows, f.id = 64 ∧
        (next .sampleS3 sampleUpload w).2 f.storedFilename = some [1, 2, 3]) ∧
      (outcome .sampleS3 ⟨Call.sample 5 (some 16), .getTask 48⟩ (next .sampleS3 sampleUpload w)).isOk = true ∧
      outcome .sampleS3 ⟨Call.sample 5 (some 16), .downloadFile 64⟩ (next .sampleS3 sampleUpload w) =
        .error (.app (notFoundError "File not found in storage")) :=
  ⟨playFrom .sampleS3 World.initial oneTask, reachable_of_freshRun (by decide +kernel), by decide +kernel,
    by decide +kernel, by decide +kernel, by decide +kernel⟩

end ProjectManagement
