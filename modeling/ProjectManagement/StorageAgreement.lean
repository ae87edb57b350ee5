import ProjectManagement.Infrastructure.Storage

/-!
One backend copies an upload in chunks, the others read it at once. Any call they make may raise; none of them leaves anything
behind, and uninterrupted they take the same uploads.
-/

namespace ProjectManagement

/-- The calls that raise: reads and writes by their number, a write with some bytes of its chunk already on the disk, and the
one request to a bucket, which stores the whole object or nothing. -/
structure Outage where
  «open» : Bool := false
  read : ℕ → Bool := fun _ => false
  write : ℕ → Option ℕ := fun _ => none
  close : Bool := false
  put : Bool := false

namespace LocalStorage

def append (key : String) (bytes : Bytes) (blobs : Blobs) : Blobs :=
  Function.update blobs key (some ((blobs key).getD [] ++ bytes))

def unlink (key : String) (blobs : Blobs) : Blobs := Function.update blobs key none

def copyChunks (outage : Outage) (chunkSize : ℕ) (key : String) (maxSizeBytes k size : ℕ) (rest : Bytes) (blobs : Blobs) :
    Except Raised ℕ × Blobs :=
  if outage.read k then (.error .unexpected, blobs)
  else
    let chunk := rest.take chunkSize
    if chunk = [] then (.ok size, blobs)
    else
      let size := size + chunk.length
      if maxSizeBytes < size then (.error (.app (fileTooLarge maxSizeBytes)), blobs)
      else match outage.write k with
        | some written => (.error .unexpected, append key (chunk.take written) blobs)
        | none => copyChunks outage chunkSize key maxSizeBytes (k + 1) size (rest.drop chunkSize) (append key chunk blobs)
termination_by rest.length
decreasing_by
  have hchunk : rest.take chunkSize ≠ [] := by assumption
  rw [Ne, List.take_eq_nil_iff, not_or] at hchunk
  have hrest : 0 < rest.length := List.length_pos_iff.mpr hchunk.2
  rw [List.length_drop]
  omega

/-- Both `except` branches unlink the target. A path with a NUL in it is refused by `open`, and nothing is unlinked. -/
def saveChunks (outage : Outage) (chunkSize : ℕ) (key : String) (upload : UploadFile) (maxSizeBytes : ℕ) (blobs : Blobs) :
    Except Raised StoredFile × Blobs :=
  if '\x00' ∈ key.toList then (.error .unexpected, blobs)
  else if outage.open then (.error .unexpected, unlink key blobs)
  else match copyChunks outage chunkSize key maxSizeBytes 0 0 upload.body (Function.update blobs key (some [])) with
    | (.ok size, blobs) =>
      if outage.close then (.error .unexpected, unlink key blobs) else (.ok ⟨key, size⟩, blobs)
    | (.error e, blobs) => (.error e, unlink key blobs)

end LocalStorage

def putWhole (outage : Outage) (refused : Bool) (key : String) (upload : UploadFile) (maxSizeBytes : ℕ) (blobs : Blobs) :
    Except Raised StoredFile × Blobs :=
  if outage.read 0 then (.error .unexpected, blobs)
  else
    let data := upload.body.take (maxSizeBytes + 1)
    if maxSizeBytes < data.length then (.error (.app (fileTooLarge maxSizeBytes)), blobs)
    else if outage.put || refused then (.error .unexpected, blobs)
    else (.ok ⟨key, data.length⟩, Function.update blobs key (some data))

def S3Storage.saveWhole (outage : Outage) (key : String) (upload : UploadFile) (maxSizeBytes : ℕ) (blobs : Blobs) :
    Except Raised StoredFile × Blobs := putWhole outage false key upload maxSizeBytes blobs

/-- `upload_blob` refuses a key that exists. -/
def AzureBlobStorage.saveWhole (outage : Outage) (key : String) (upload : UploadFile) (maxSizeBytes : ℕ) (blobs : Blobs) :
    Except Raised StoredFile × Blobs := putWhole outage (blobs key).isSome key upload maxSizeBytes blobs

def Backend.saveWith (outage : Outage) (chunkSize : ℕ) : Backend → String → UploadFile → ℕ → Blobs → Except Raised StoredFile × Blobs
  | .local => LocalStorage.saveChunks outage chunkSize
  | .s3 => S3Storage.saveWhole outage
  | .azure => AzureBlobStorage.saveWhole outage

variable {outage : Outage} {chunkSize maxSizeBytes k size n : ℕ} {key other : String} {file : UploadFile} {blobs blobs' : Blobs}
  {out rest : Bytes}

/-! The loop. -/

namespace LocalStorage

@[simp] theorem append_self (bytes : Bytes) (h : blobs key = some out) : append key bytes blobs key = some (out ++ bytes) := by
  simp [append, h]

theorem append_other (bytes : Bytes) (h : other ≠ key) : append key bytes blobs other = blobs other := by
  simp [append, h]

theorem append_append (bytes bytes' : Bytes) : append key bytes' (append key bytes blobs) = append key (bytes ++ bytes') blobs := by
  simp [append, List.append_assoc]

theorem append_split (rest : Bytes) : (if rest.drop chunkSize = [] then append key (rest.take chunkSize) blobs
    else append key (rest.drop chunkSize) (append key (rest.take chunkSize) blobs)) = append key rest blobs := by
  split
  · next hend =>
    have hwhole : rest.take chunkSize = rest := by
      have hjoin := List.take_append_drop chunkSize rest
      rwa [hend, List.append_nil] at hjoin
    rw [hwhole]
  · rw [append_append, List.take_append_drop]

theorem copyChunks_nil : copyChunks outage chunkSize key maxSizeBytes k size [] blobs =
    if outage.read k then (.error .unexpected, blobs) else (.ok size, blobs) := by
  rw [copyChunks]
  simp

theorem copyChunks_cons (positive : 0 < chunkSize) (nonempty : rest ≠ []) :
    copyChunks outage chunkSize key maxSizeBytes k size rest blobs =
      if outage.read k then (.error .unexpected, blobs)
      else if maxSizeBytes < size + (rest.take chunkSize).length then (.error (.app (fileTooLarge maxSizeBytes)), blobs)
      else match outage.write k with
        | some written => (.error .unexpected, append key ((rest.take chunkSize).take written) blobs)
        | none => copyChunks outage chunkSize key maxSizeBytes (k + 1) (size + (rest.take chunkSize).length)
            (rest.drop chunkSize) (append key (rest.take chunkSize) blobs) := by
  have hchunk : rest.take chunkSize ≠ [] := by simp [nonempty, positive.ne']
  rw [copyChunks, if_neg hchunk]

/-- Where no call of the loop raises: its reads start every `chunkSize` bytes and end with the one that finds nothing. -/
structure Undisturbed (outage : Outage) (chunkSize k n : ℕ) : Prop where
  read : ∀ j, j * chunkSize < n + chunkSize → outage.read (k + j) = false
  write : ∀ j, j * chunkSize < n → outage.write (k + j) = none

theorem undisturbed_zero (positive : 0 < chunkSize) : Undisturbed outage chunkSize k 0 ↔ outage.read k = false := by
  constructor
  · intro h
    exact h.read 0 (by omega)
  · intro h
    refine ⟨fun j hj => ?_, fun j hj => absurd hj (Nat.not_lt_zero _)⟩
    have hzero : j = 0 := by
      by_contra hne
      have hle : chunkSize ≤ j * chunkSize := Nat.le_mul_of_pos_left _ (by omega)
      omega
    rw [hzero]
    exact h

theorem undisturbed_step (positive : 0 < chunkSize) (hn : 0 < n) : Undisturbed outage chunkSize k n ↔
    outage.read k = false ∧ outage.write k = none ∧ Undisturbed outage chunkSize (k + 1) (n - chunkSize) := by
  -- the first chunk may be all there is left, and then the next read is the last
  have hread : ∀ j, (j + 1) * chunkSize < n + chunkSize ↔ j * chunkSize < n - chunkSize + chunkSize := by
    intro j
    rw [Nat.succ_mul]
    rcases Nat.eq_zero_or_pos j with rfl | hj
    · omega
    · have hle : chunkSize ≤ j * chunkSize := Nat.le_mul_of_pos_left _ hj
      omega
  have hwrite : ∀ j, (j + 1) * chunkSize < n ↔ j * chunkSize < n - chunkSize := by
    intro j
    rw [Nat.succ_mul]
    omega
  have hshift : ∀ j, k + (j + 1) = k + 1 + j := by
    intro j
    omega
  constructor
  · intro h
    refine ⟨h.read 0 (by omega), h.write 0 (by omega), fun j hj => ?_, fun j hj => ?_⟩
    · rw [← hshift]
      exact h.read (j + 1) ((hread j).mpr hj)
    · rw [← hshift]
      exact h.write (j + 1) ((hwrite j).mpr hj)
  · rintro ⟨hread0, hwrite0, h⟩
    constructor
    · intro j hj
      cases j with
      | zero => exact hread0
      | succ j =>
        rw [hshift]
        exact h.read j ((hread j).mp hj)
    · intro j hj
      cases j with
      | zero => exact hwrite0
      | succ j =>
        rw [hshift]
        exact h.write j ((hwrite j).mp hj)

theorem copyChunks_ok_iff (positive : 0 < chunkSize) (within : size ≤ maxSizeBytes) :
    copyChunks outage chunkSize key maxSizeBytes k size rest blobs = (.ok n, blobs') ↔
      (size + rest.length ≤ maxSizeBytes ∧ Undisturbed outage chunkSize k rest.length) ∧
        n = size + rest.length ∧ blobs' = if rest = [] then blobs else append key rest blobs := by
  induction hlength : rest.length using Nat.strongRecOn generalizing k size rest blobs with
  | _ m ih =>
    subst hlength
    by_cases hrest : rest = []
    · subst hrest
      rw [copyChunks_nil, List.length_nil, undisturbed_zero positive, if_pos rfl]
      cases hread : outage.read k with
      | true => simp
      | false => simp [within, eq_comm]
    · have hpos : 0 < rest.length := List.length_pos_iff.mpr hrest
      have hsplit : (rest.take chunkSize).length + (rest.drop chunkSize).length = rest.length := by
        rw [← List.length_append, List.take_append_drop]
      rw [copyChunks_cons positive hrest, undisturbed_step positive hpos, if_neg hrest]
      cases hread : outage.read k with
      | true => simp
      | false =>
        rw [if_neg Bool.false_ne_true]
        by_cases hlarge : maxSizeBytes < size + (rest.take chunkSize).length
        · rw [if_pos hlarge]
          have hover : ¬size + rest.length ≤ maxSizeBytes := by omega
          simp [hover]
        · rw [if_neg hlarge]
          cases hwrite : outage.write k with
          | some written => simp
          | none =>
            have hdrop : (rest.drop chunkSize).length < rest.length := by
              rw [List.length_drop]
              omega
            have htotal : size + (rest.take chunkSize).length + (rest.drop chunkSize).length = size + rest.length := by omega
            simp only
            rw [ih _ hdrop (Nat.not_lt.mp hlarge) rfl, htotal, append_split, List.length_drop]
            simp

theorem copyChunks_other (positive : 0 < chunkSize) (h : other ≠ key) :
    (copyChunks outage chunkSize key maxSizeBytes k size rest blobs).2 other = blobs other := by
  induction hlength : rest.length using Nat.strongRecOn generalizing k size rest blobs with
  | _ m ih =>
    subst hlength
    by_cases hrest : rest = []
    · rw [hrest, copyChunks_nil]
      split <;> rfl
    · have hdrop : (rest.drop chunkSize).length < rest.length := by
        have hpos : 0 < rest.length := List.length_pos_iff.mpr hrest
        rw [List.length_drop]
        omega
      rw [copyChunks_cons positive hrest]
      split
      · rfl
      · split
        · rfl
        · cases outage.write k with
          | some written => exact append_other _ h
          | none => exact (ih _ hdrop rfl).trans (append_other _ h)

theorem unlink_copyChunks (positive : 0 < chunkSize) :
    unlink key (copyChunks outage chunkSize key maxSizeBytes k size rest (Function.update blobs key (some out))).2 =
      unlink key blobs := by
  funext other
  by_cases hkey : other = key
  · rw [hkey, unlink, unlink, Function.update_self, Function.update_self]
  · rw [unlink, unlink, Function.update_of_ne hkey, Function.update_of_ne hkey, copyChunks_other positive hkey,
      Function.update_of_ne hkey]

/-- With nothing raised, this is the loop of the storage backend as it stands. -/
theorem copyChunks_none {fuel : ℕ} (hfuel : rest.length ≤ fuel) :
    (copyChunks {} LocalStorage.chunkSize key maxSizeBytes k size rest (Function.update blobs key (some out))).1 =
        ((copy maxSizeBytes fuel size out rest).map Prod.fst).mapError Raised.app ∧
      ∀ n out', copy maxSizeBytes fuel size out rest = .ok (n, out') →
        (copyChunks {} LocalStorage.chunkSize key maxSizeBytes k size rest (Function.update blobs key (some out))).2 =
          Function.update blobs key (some out') := by
  induction fuel generalizing k size out rest with
  | zero =>
    obtain rfl := List.length_eq_zero_iff.mp (Nat.le_zero.mp hfuel)
    rw [copyChunks_nil]
    simp only [copy, Bool.false_eq_true, if_false]
    refine ⟨rfl, fun n out' h => ?_⟩
    simp only [Except.ok.injEq, Prod.mk.injEq] at h
    rw [h.2]
  | succ fuel ih =>
    cases rest with
    | nil =>
      rw [copyChunks_nil]
      simp only [copy, Bool.false_eq_true, if_false]
      refine ⟨rfl, fun n out' h => ?_⟩
      simp only [Except.ok.injEq, Prod.mk.injEq] at h
      rw [h.2]
    | cons b rest =>
      have hpos : 0 < LocalStorage.chunkSize := by decide
      have hdrop : ((b :: rest).drop LocalStorage.chunkSize).length ≤ fuel := by
        rw [List.length_drop]
        omega
      have happend : append key ((b :: rest).take LocalStorage.chunkSize) (Function.update blobs key (some out)) =
          Function.update blobs key (some (out ++ (b :: rest).take LocalStorage.chunkSize)) := by simp [append]
      rw [copyChunks_cons hpos (List.cons_ne_nil b rest), happend]
      simp only [copy, Bool.false_eq_true, if_false]
      split
      · exact ⟨rfl, fun n out' h => absurd h (by simp)⟩
      · exact ih hdrop

end LocalStorage

/-! The three backends. -/

/-- No call the backend makes raises while it saves `n` bytes. -/
def Backend.Uninterrupted (outage : Outage) (chunkSize : ℕ) (key : String) (n : ℕ) : Backend → Prop
  | .local => '\x00' ∉ key.toList ∧ outage.open = false ∧ LocalStorage.Undisturbed outage chunkSize 0 n ∧ outage.close = false
  | .s3 | .azure => outage.read 0 = false ∧ outage.put = false

theorem LocalStorage.saveChunks_ok_iff {stored : StoredFile} (positive : 0 < chunkSize) :
    saveChunks outage chunkSize key file maxSizeBytes blobs = (.ok stored, blobs') ↔
      (file.body.length ≤ maxSizeBytes ∧ Backend.local.Uninterrupted outage chunkSize key file.body.length) ∧
        stored = ⟨key, file.body.length⟩ ∧ blobs' = Function.update blobs key (some file.body) := by
  have hloop : ∀ n blobs', copyChunks outage chunkSize key maxSizeBytes 0 0 file.body (Function.update blobs key (some [])) =
      (.ok n, blobs') ↔ (file.body.length ≤ maxSizeBytes ∧ Undisturbed outage chunkSize 0 file.body.length) ∧
        n = file.body.length ∧ blobs' = Function.update blobs key (some file.body) := by
    intro n blobs'
    have hwritten : (if file.body = [] then Function.update blobs key (some [])
        else append key file.body (Function.update blobs key (some []))) = Function.update blobs key (some file.body) := by
      split
      · next h => rw [h]
      · simp [append]
    rw [copyChunks_ok_iff positive (Nat.zero_le _), hwritten, Nat.zero_add]
  unfold saveChunks Backend.Uninterrupted
  by_cases hname : '\x00' ∈ key.toList
  · simp [hname]
  · cases hopen : outage.open with
    | true => simp [hname]
    | false =>
      simp only [hname, if_false, Bool.false_eq_true]
      rcases hcopy : copyChunks outage chunkSize key maxSizeBytes 0 0 file.body (Function.update blobs key (some [])) with
        ⟨result, copied⟩
      cases result with
      | error e =>
        have hraised : ¬(file.body.length ≤ maxSizeBytes ∧ Undisturbed outage chunkSize 0 file.body.length) := by
          intro h
          have hok := (hloop _ _).mpr ⟨h, rfl, rfl⟩
          simp [hcopy] at hok
        simp only [Prod.mk.injEq, reduceCtorEq, false_and, false_iff]
        exact fun h => hraised ⟨h.1.1, h.1.2.2.2.1⟩
      | ok n =>
        obtain ⟨hall, rfl, rfl⟩ := (hloop n copied).mp hcopy
        cases hclose : outage.close <;> simp [hall, eq_comm]

theorem LocalStorage.saveChunks_error {e : Raised} (positive : 0 < chunkSize) (new : blobs key = none)
    (h : saveChunks outage chunkSize key file maxSizeBytes blobs = (.error e, blobs')) : blobs' = blobs := by
  have hfree : unlink key blobs = blobs := Function.update_eq_self_iff.mpr new.symm
  have hunlink : unlink key
      (copyChunks outage chunkSize key maxSizeBytes 0 0 file.body (Function.update blobs key (some []))).2 = blobs :=
    (unlink_copyChunks positive).trans hfree
  unfold saveChunks at h
  split at h
  · exact (Prod.mk.inj h).2.symm
  · split at h
    · exact (Prod.mk.inj h).2.symm.trans hfree
    · split at h
      · next hcopy =>
        rw [hcopy] at hunlink
        split at h
        · exact (Prod.mk.inj h).2.symm.trans hunlink
        · simp at h
      · next hcopy =>
        rw [hcopy] at hunlink
        exact (Prod.mk.inj h).2.symm.trans hunlink

theorem putWhole_ok_iff {stored : StoredFile} : putWhole outage false key file maxSizeBytes blobs = (.ok stored, blobs') ↔
    (file.body.length ≤ maxSizeBytes ∧ outage.read 0 = false ∧ outage.put = false) ∧
      stored = ⟨key, file.body.length⟩ ∧ blobs' = Function.update blobs key (some file.body) := by
  unfold putWhole
  cases hread : outage.read 0 with
  | true => simp
  | false =>
    by_cases hsize : file.body.length ≤ maxSizeBytes
    · have hdata : file.body.take (maxSizeBytes + 1) = file.body := List.take_of_length_le (by omega)
      cases hput : outage.put <;> simp [hdata, hsize, Nat.not_lt.mpr hsize, eq_comm]
    · have hdata : maxSizeBytes < (file.body.take (maxSizeBytes + 1)).length := by
        rw [List.length_take]
        omega
      simp only [Bool.false_eq_true, if_false, hdata, if_true]
      simp [hsize]

theorem putWhole_error {e : Raised} {refused : Bool} (h : putWhole outage refused key file maxSizeBytes blobs = (.error e, blobs')) :
    blobs' = blobs := by
  simp only [putWhole] at h
  split at h
  · exact (Prod.mk.inj h).2.symm
  · split at h
    · exact (Prod.mk.inj h).2.symm
    · split at h
      · exact (Prod.mk.inj h).2.symm
      · simp at h

/-- In chunks of the size it has and with nothing raised, a save is the one of the system. -/
theorem Backend.saveWith_none (backend : Backend) (key : String) : backend.saveWith {} LocalStorage.chunkSize key = backend.save key := by
  funext upload maxSizeBytes blobs
  cases backend with
  | «local» =>
    obtain ⟨hresult, hcopied⟩ := @LocalStorage.copyChunks_none maxSizeBytes 0 0 key blobs [] upload.body _ (Nat.le_refl _)
    have hunlink : LocalStorage.unlink key (LocalStorage.copyChunks {} LocalStorage.chunkSize key maxSizeBytes 0 0 upload.body
        (Function.update blobs key (some []))).2 = Function.update blobs key none := LocalStorage.unlink_copyChunks (by decide)
    simp only [saveWith, save, LocalStorage.saveChunks, LocalStorage.save, Bool.false_eq_true, if_false]
    rcases hcopy : LocalStorage.copyChunks {} LocalStorage.chunkSize key maxSizeBytes 0 0 upload.body
      (Function.update blobs key (some [])) with ⟨result, copied⟩
    rw [hcopy] at hresult hcopied hunlink
    cases hsaved : LocalStorage.copy maxSizeBytes upload.body.length 0 [] upload.body with
    | error e =>
      rw [hsaved] at hresult
      obtain rfl : result = .error (.app e) := hresult
      rw [← hunlink]
    | ok saved =>
      have hblobs : copied = Function.update blobs key (some saved.2) := hcopied saved.1 saved.2 hsaved
      rw [hsaved] at hresult
      obtain rfl : result = .ok saved.1 := hresult
      rw [hblobs]
  | s3 =>
    simp only [saveWith, save, S3Storage.saveWhole, S3Storage.save, putWhole, Bool.or_self, Bool.false_eq_true, if_false]
  | azure =>
    simp only [saveWith, save, AzureBlobStorage.saveWhole, AzureBlobStorage.save, putWhole, Bool.false_or, Bool.false_eq_true,
      if_false]

theorem Backend.saveWith_ok_iff {backend : Backend} {stored : StoredFile} (positive : 0 < chunkSize) (new : blobs key = none) :
    backend.saveWith outage chunkSize key file maxSizeBytes blobs = (.ok stored, blobs') ↔
      (file.body.length ≤ maxSizeBytes ∧ backend.Uninterrupted outage chunkSize key file.body.length) ∧
        stored = ⟨key, file.body.length⟩ ∧ blobs' = Function.update blobs key (some file.body) := by
  cases backend with
  | «local» => exact LocalStorage.saveChunks_ok_iff positive
  | s3 => exact putWhole_ok_iff
  | azure =>
    have hfree : (blobs key).isSome = false := by rw [new]; rfl
    simp only [saveWith, AzureBlobStorage.saveWhole, hfree]
    exact putWhole_ok_iff

theorem Backend.saveWith_error {backend : Backend} {e : Raised} (positive : 0 < chunkSize) (new : blobs key = none)
    (h : backend.saveWith outage chunkSize key file maxSizeBytes blobs = (.error e, blobs')) : blobs' = blobs := by
  cases backend with
  | «local» => exact LocalStorage.saveChunks_error positive new h
  | s3 => exact putWhole_error h
  | azure => exact putWhole_error h

/-- Every backend takes the uploads of at most the allowed size, when none of its calls raises, and stores them as they are;
an upload it does not take, for whatever reason, leaves nothing behind. -/
theorem storage_backends_agree (positive : 0 < chunkSize) (new : blobs key = none) (file : UploadFile) (maxSizeBytes : ℕ)
    (backend : Backend) (outage : Outage) :
    match backend.saveWith outage chunkSize key file maxSizeBytes blobs with
    | (.ok stored, blobs') =>
      (file.body.length ≤ maxSizeBytes ∧ backend.Uninterrupted outage chunkSize key file.body.length) ∧
        stored = ⟨key, file.body.length⟩ ∧ blobs' = Function.update blobs key (some file.body)
    | (.error _, blobs') =>
      ¬(file.body.length ≤ maxSizeBytes ∧ backend.Uninterrupted outage chunkSize key file.body.length) ∧ blobs' = blobs := by
  rcases h : backend.saveWith outage chunkSize key file maxSizeBytes blobs with ⟨result, blobs'⟩
  cases result with
  | ok stored => exact (Backend.saveWith_ok_iff positive new).mp h
  | error e =>
    refine ⟨fun hall => ?_, Backend.saveWith_error positive new h⟩
    rw [(Backend.saveWith_ok_iff positive new).mpr ⟨hall, rfl, rfl⟩] at h
    simp at h

/-- The second of two chunks cannot be written, and the first is taken back. -/
theorem storage_backends_agree_sample : (Backend.local.saveWith { write := fun k => if k = 1 then some 1 else none } 2 "k"
    ⟨none, none, [1, 2, 3]⟩ 5 fun _ => none).2 = fun _ => none := by
  have h := @storage_backends_agree 2 "k" (fun _ => none) (by decide) rfl ⟨none, none, [1, 2, 3]⟩ 5 .local
    { write := fun k => if k = 1 then some 1 else none }
  split at h
  · have hwrite := h.1.2.2.2.1.write 1 (by decide)
    simp at hwrite
  · next hsave =>
    rw [hsave]
    exact h.2

end ProjectManagement
