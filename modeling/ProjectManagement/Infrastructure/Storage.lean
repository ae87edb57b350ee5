import ProjectManagement.Core.Config
import ProjectManagement.Core.Exceptions
import Mathlib.Algebra.Group.Nat.Defs
import Mathlib.Logic.Function.Basic

/-! The storage backends: a disk directory, an S3-compatible bucket, an Azure container. -/

namespace ProjectManagement

abbrev Bytes := List UInt8

abbrev Blobs := String → Option Bytes

structure UploadFile where
  filename : Option String
  contentType : Option String
  body : Bytes

structure StoredFile where
  key : String
  sizeBytes : ℕ
  deriving DecidableEq, Repr

namespace Path

/-- `Path(s).name` on POSIX: the last component, where empty ones and `.` do not count. -/
def name (s : List Char) : List Char :=
  ((s.splitOn '/').filter (fun c => c ≠ [] ∧ c ≠ ['.'])).getLast?.getD []

/-- `rfind`, `none` when there is no dot. -/
def rfindDot (s : List Char) : Option ℕ :=
  if '.' ∈ s then some (s.length - 1 - (s.reverse.takeWhile (· ≠ '.')).length) else none

def suffix (s : List Char) : List Char :=
  let n := name s
  match rfindDot n with
  | some i => if 0 < i ∧ i < n.length - 1 then n.drop i else []
  | none => []

/-- What a POSIX path starts from: two slashes, and no other number of them, are a root of their own. -/
def root (s : List Char) : List Char :=
  match (s.takeWhile (· = '/')).length with
  | 0 => []
  | 2 => ['/', '/']
  | _ => ['/']

def parts (s : List Char) : List (List Char) := (s.splitOn '/').filter (fun c => c ≠ [] ∧ c ≠ ['.'])

/-- `path / key`, by `posixpath.join`. -/
def join (path key : List Char) : List Char :=
  if key.head? = some '/' then key
  else if path = [] ∨ path.getLast? = some '/' then path ++ key
  else path ++ '/' :: key

end Path

def hexDigit (n : ℕ) : Char := "0123456789abcdef".toList.getD n '0'

/-- `uuid.hex`: 32 digits, the most significant first. -/
def Uuid.hex (u : Uuid) : List Char :=
  (List.range 32).map (fun k => hexDigit (u.toNat / 16 ^ (31 - k) % 16))

inductive Backend
  | local | s3 | azure
  deriving DecidableEq, Repr

/-- `repr` of a text of printable characters without quotes and backslashes. -/
def quoted (text : String) : String := "'" ++ text ++ "'"

/-- The factory behind `Settings.storage_backend`; an error is a failed start-up. -/
def getStorage (s : Settings) : Except String Backend :=
  let backend := s.storageBackend.toLower
  if backend = "local" then .ok .local
  else if backend = "s3" ∨ backend = "r2" then
    if s.s3Bucket = "" then .error "S3_BUCKET must be configured for the s3/r2 storage backend" else .ok .s3
  else if backend = "azure" then
    if s.azureConnectionString = "" ∨ s.azureContainer = "" then
      .error "AZURE_CONNECTION_STRING and AZURE_CONTAINER must be configured for the azure storage backend"
    else .ok .azure
  else .error ("Unknown storage backend: " ++ quoted s.storageBackend)

def fileTooLarge (maxSizeBytes : ℕ) : AppException :=
  validationAppError ("File exceeds maximum size of " ++ toString maxSizeBytes ++ " bytes") .fileTooLarge "file"

/-- `_key_for`, the same in every backend. -/
def keyFor (uuid4 : Uuid) (originalFilename : String) : String :=
  String.ofList (uuid4.hex ++ (Path.suffix originalFilename.toList).take 16)

namespace LocalStorage

def chunkSize : ℕ := 1024 * 1024

/-- The `while chunk := await upload.read(_CHUNK_SIZE)` loop: `out` is what is on disk so far.
One step reads at least one byte, so `fuel` is never short when it is the length of the stream. -/
def copy (maxSizeBytes : ℕ) : ℕ → ℕ → Bytes → Bytes → Except AppException (ℕ × Bytes)
  | _, size, out, [] => .ok (size, out)
  | 0, size, out, _ :: _ => .ok (size, out)
  | fuel + 1, size, out, b :: rest =>
    let chunk := (b :: rest).take chunkSize
    let size := size + chunk.length
    if maxSizeBytes < size then .error (fileTooLarge maxSizeBytes)
    else copy maxSizeBytes fuel size (out ++ chunk) ((b :: rest).drop chunkSize)

/-- `open` refuses a path with a NUL in it before anything is on disk. -/
def save (key : String) (upload : UploadFile) (maxSizeBytes : ℕ) (blobs : Blobs) :
    Except Raised StoredFile × Blobs :=
  if '\x00' ∈ key.toList then (.error .unexpected, blobs)
  else match copy maxSizeBytes upload.body.length 0 [] upload.body with
  | .ok (size, out) => (.ok ⟨key, size⟩, Function.update blobs key (some out))
  | .error e => (.error (.app e), Function.update blobs key none)

/-- `local_path`, with the file's bytes in place of its path. -/
def localPath (key : String) (blobs : Blobs) : Option Bytes := blobs key

end LocalStorage

namespace S3Storage

/-- `put_object` replaces whatever the key held. -/
def save (key : String) (upload : UploadFile) (maxSizeBytes : ℕ) (blobs : Blobs) :
    Except Raised StoredFile × Blobs :=
  let data := upload.body.take (maxSizeBytes + 1)
  if maxSizeBytes < data.length then (.error (.app (fileTooLarge maxSizeBytes)), blobs)
  else (.ok ⟨key, data.length⟩, Function.update blobs key (some data))

def localPath (_key : String) (_blobs : Blobs) : Option Bytes := none

end S3Storage

namespace AzureBlobStorage

/-- `upload_blob` without `overwrite` refuses a key that exists. -/
def save (key : String) (upload : UploadFile) (maxSizeBytes : ℕ) (blobs : Blobs) :
    Except Raised StoredFile × Blobs :=
  let data := upload.body.take (maxSizeBytes + 1)
  if maxSizeBytes < data.length then (.error (.app (fileTooLarge maxSizeBytes)), blobs)
  else if (blobs key).isSome then (.error .unexpected, blobs)
  else (.ok ⟨key, data.length⟩, Function.update blobs key (some data))

def localPath (_key : String) (_blobs : Blobs) : Option Bytes := none

end AzureBlobStorage

namespace Backend

def save : Backend → String → UploadFile → ℕ → Blobs → Except Raised StoredFile × Blobs
  | .local => LocalStorage.save
  | .s3 => S3Storage.save
  | .azure => AzureBlobStorage.save

def localPath : Backend → String → Blobs → Option Bytes
  | .local => LocalStorage.localPath
  | .s3 => S3Storage.localPath
  | .azure => AzureBlobStorage.localPath

end Backend

namespace LocalStorage

theorem copy_succ {maxSizeBytes fuel size n : ℕ} {b : UInt8} {out rest out' : Bytes}
    (h : copy maxSizeBytes (fuel + 1) size out (b :: rest) = .ok (n, out')) :
    size + ((b :: rest).take chunkSize).length ≤ maxSizeBytes ∧
      copy maxSizeBytes fuel (size + ((b :: rest).take chunkSize).length) (out ++ (b :: rest).take chunkSize)
        ((b :: rest).drop chunkSize) = .ok (n, out') := by
  simp only [copy] at h
  split at h
  · simp at h
  · rename_i hle
    exact ⟨Nat.not_lt.mp hle, h⟩

theorem copy_ok {maxSizeBytes fuel size n : ℕ} {out rest out' : Bytes} (hf : rest.length ≤ fuel)
    (h : copy maxSizeBytes fuel size out rest = .ok (n, out')) : out' = out ++ rest ∧ n = size + rest.length := by
  induction fuel generalizing size out rest with
  | zero =>
    obtain rfl := List.length_eq_zero_iff.mp (Nat.le_zero.mp hf)
    simp only [copy, Except.ok.injEq, Prod.mk.injEq] at h
    simp [← h.1, ← h.2]
  | succ fuel ih =>
    cases rest with
    | nil =>
      simp only [copy, Except.ok.injEq, Prod.mk.injEq] at h
      simp [← h.1, ← h.2]
    | cons b rest =>
      obtain ⟨-, h⟩ := copy_succ h
      have hpos : 0 < chunkSize := by decide
      have hdrop : ((b :: rest).drop chunkSize).length ≤ fuel := by
        rw [List.length_drop]
        omega
      obtain ⟨hout, hn⟩ := ih hdrop h
      constructor
      · rw [hout, List.append_assoc, List.take_append_drop]
      · rw [hn, Nat.add_assoc, ← List.length_append, List.take_append_drop]

end LocalStorage

theorem LocalStorage.save_ok {key : String} {upload : UploadFile} {maxSizeBytes : ℕ} {blobs blobs' : Blobs}
    {stored : StoredFile} (h : LocalStorage.save key upload maxSizeBytes blobs = (.ok stored, blobs')) :
    blobs' key = some upload.body ∧ stored = ⟨key, upload.body.length⟩ := by
  unfold LocalStorage.save at h
  split at h
  · simp at h
  · split at h
    · rename_i size out hcopy
      obtain ⟨hout, hsize⟩ := copy_ok (Nat.le_refl _) hcopy
      simp only [Prod.mk.injEq, Except.ok.injEq] at h
      obtain ⟨rfl, rfl⟩ := h
      simp [hout, hsize]
    · simp at h

theorem Backend.save_key {backend : Backend} {key : String} {upload : UploadFile} {maxSizeBytes : ℕ}
    {blobs blobs' : Blobs} {stored : StoredFile}
    (h : backend.save key upload maxSizeBytes blobs = (.ok stored, blobs')) : stored.key = key := by
  cases backend with
  | «local» => rw [(LocalStorage.save_ok h).2]
  | s3 =>
    simp only [Backend.save, S3Storage.save] at h
    split at h
    · simp at h
    · simp only [Prod.mk.injEq, Except.ok.injEq] at h
      rw [← h.1]
  | azure =>
    simp only [Backend.save, AzureBlobStorage.save] at h
    split at h
    · simp at h
    · split at h
      · simp at h
      · simp only [Prod.mk.injEq, Except.ok.injEq] at h
        rw [← h.1]

theorem Backend.save_other {backend : Backend} {key other : String} {upload : UploadFile} {maxSizeBytes : ℕ}
    {blobs : Blobs} (h : other ≠ key) : (backend.save key upload maxSizeBytes blobs).2 other = blobs other := by
  cases backend with
  | «local» =>
    simp only [Backend.save, LocalStorage.save]
    split
    · rfl
    · split <;> simp [h]
  | s3 =>
    simp only [Backend.save, S3Storage.save]
    split <;> simp [h]
  | azure =>
    simp only [Backend.save, AzureBlobStorage.save]
    split
    · rfl
    · split <;> simp [h]

theorem Backend.localPath_eq_some {backend : Backend} {key : String} {blobs : Blobs} {bytes : Bytes} :
    backend.localPath key blobs = some bytes ↔ backend = .local ∧ blobs key = some bytes := by
  cases backend <;> simp [Backend.localPath, LocalStorage.localPath, S3Storage.localPath, AzureBlobStorage.localPath]

theorem getStorage_local {s : Settings} {backend : Backend} (h : getStorage s = .ok backend) :
    backend = .local ↔ s.storageBackend.toLower = "local" := by
  unfold getStorage at h
  by_cases hl : s.storageBackend.toLower = "local"
  · simp only [hl, if_true, Except.ok.injEq] at h
    simp [hl, ← h]
  · simp only [hl, if_false] at h
    simp only [hl, iff_false]
    rintro rfl
    split at h
    · split at h <;> simp at h
    · split at h
      · split at h <;> simp at h
      · simp at h

end ProjectManagement
