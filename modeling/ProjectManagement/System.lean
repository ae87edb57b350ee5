import ProjectManagement.Effects
import ProjectManagement.Library.Runs

/-!
The system: requests, one at a time, and the seed script. It starts with empty tables and an
empty store.
-/

namespace ProjectManagement

open Library

inductive Event
  | request (i : Input)
  | seedAdmin (c : Call) (email password fullName : String)

namespace Event

def call : Event → Call
  | request i => i.call
  | seedAdmin c .. => c

end Event

/-- `scripts/seed_admin.py`. -/
def seedAdminWith (D : Deployment) (c : Call) (insert : User → Db → Except Raised Db) (email password fullName : String) : App Unit := do
  let existing ← UserRepository.getByEmail D email
  if existing.isSome = true then pure ()
  else do
    let hashed ← hashPassword D c password
    UserRepository.addWith insert (newUser D c email hashed fullName .admin)
    Tx.commit

abbrev seedAdmin (D : Deployment) (c : Call) (email password fullName : String) : App Unit :=
  seedAdminWith D c (Db.insertUser D.engine) email password fullName

def nextWorld (D : Deployment) : Event → World → World
  | .request i, w => next D i w
  | .seedAdmin c email password fullName, w => ((seedAdmin D c email password fullName).run w).2

def World.initial : World := (Db.empty, fun _ => none)

def FreshFamily (e : Event) (w : World) : Prop :=
  ∀ t ∈ w.1.refreshTokens.rows, t.familyId ≠ e.call.fresh.familyId

def FreshKey (e : Event) (w : World) : Prop :=
  ∀ name, w.2 (keyFor e.call.fresh.uuid4 name) = none ∧
    ∀ f ∈ w.1.fileAttachments.rows, f.storedFilename ≠ keyFor e.call.fresh.uuid4 name

/-- The generated values that no constraint of the schema keeps apart. -/
structure FreshIds (e : Event) (w : World) : Prop where
  family : FreshFamily e w
  key : FreshKey e w

abbrev Execution (D : Deployment) (ok : Event → World → Prop) : World → List Event → World → Prop :=
  Run (nextWorld D) ok

def Reachable (D : Deployment) (w : World) : Prop := ∃ es, Execution D FreshIds World.initial es w

section Steps

variable {D : Deployment} {w : World}

theorem succeeds_of_outcome {i : Input} {a : ApiResponse} (ok : outcome D i w = .ok a) :
    ∃ t, (handle D i.call i.request).Succeeds ⟨w.1, w.1, w.2⟩ a t ∧ next D i w = (t.working, t.outside) :=
  Tx.run_ok.mp (Prod.ext ok rfl)

theorem seedAdminWith_next (insert : User → Db → Except Raised Db) (c : Call) (email password fullName : String) :
    ((seedAdminWith D c insert email password fullName).run w).2 = w ∨
      ∃ hashed d, UserRepository.withEmail email w.1 = [] ∧
        D.bcrypt.hashpw password.toUTF8 c.fresh.salt = some hashed ∧
        insert (newUser D c email hashed fullName .admin) w.1 = .ok d ∧
        ((seedAdminWith D c insert email password fullName).run w).2 = (d, w.2) := by
  unfold seedAdminWith
  rcases Tx.run_bind_readOnly (m := UserRepository.getByEmail D email) w with ⟨e, h⟩ | ⟨o, ho, h⟩
  · exact Or.inl (by rw [h])
  · rw [h]
    obtain ⟨free, -⟩ := UserRepository.succeeds_getByEmail.mp ho
    cases o with
    | some u => exact Or.inl (by simp [Tx.run, pure])
    | none =>
      simp only [Option.isSome_none, Bool.false_eq_true, if_false, Tx.run, Tx.bind_apply, hashPassword, Tx.orRaise,
        Tx.ofExcept, UserRepository.addWith, Tx.execute, Tx.commit]
      cases hash : D.bcrypt.hashpw password.toUTF8 c.fresh.salt with
      | none => exact Or.inl rfl
      | some hashed =>
        cases hi : insert (newUser D c email hashed fullName .admin) w.1 with
        | error e => exact Or.inl (by simp [hi])
        | ok d => exact Or.inr ⟨hashed, d, (UserRepository.oneWithEmail_none.mp free).2, rfl, hi, by simp [hi]⟩

theorem seedAdmin_next (c : Call) (email password fullName : String) :
    nextWorld D (.seedAdmin c email password fullName) w = w ∨
      ∃ hashed users, UserRepository.withEmail email w.1 = [] ∧
        D.bcrypt.hashpw password.toUTF8 c.fresh.salt = some hashed ∧
        users.rows = w.1.users.rows ++ [newUser D c email hashed fullName .admin] ∧
        nextWorld D (.seedAdmin c email password fullName) w = ({ w.1 with users := users }, w.2) := by
  rcases seedAdminWith_next (D := D) (w := w) (Db.insertUser D.engine) c email password fullName with
    h | ⟨hashed, d, free, hash, stored, h⟩
  · exact Or.inl h
  · obtain ⟨-, -, users, rows, rfl⟩ := Db.insertUser_ok stored
    exact Or.inr ⟨hashed, users, free, hash, rows, h⟩

theorem nextWorld_cases {P : World → Prop} (e : Event)
    (request : ∀ i o w', e = .request i → Effect D i w o w' → P w')
    (unchanged : P w)
    (seeded : ∀ users : Table User, ∀ u : User, u.id = e.call.fresh.id → u.deletedAt = none →
      users.rows = w.1.users.rows ++ [u] → P ({ w.1 with users := users }, w.2)) :
    P (nextWorld D e w) := by
  cases e with
  | request i => exact request i _ _ rfl (step_effect D i w)
  | seedAdmin c email password fullName =>
    rcases seedAdmin_next (D := D) (w := w) c email password fullName with h | ⟨hashed, users, -, -, rows, h⟩
    · rw [h]
      exact unchanged
    · rw [h]
      exact seeded users _ rfl rfl rows

def Event.uploads : Event → Bool
  | request ⟨_, .uploadFile ..⟩ => true
  | _ => false

theorem nextWorld_of_not_uploads {e : Event} (h : e.uploads = false) :
    (nextWorld D e w).2 = w.2 ∧ (nextWorld D e w).1.fileAttachments = w.1.fileAttachments := by
  refine nextWorld_cases (P := fun w' => w'.2 = w.2 ∧ w'.1.fileAttachments = w.1.fileAttachments) e ?_ ⟨rfl, rfl⟩ ?_
  · rintro i o w' rfl effect
    cases effect with
    | fileUploaded caller task saved names rows => exact absurd h (by simp [Event.uploads])
    | uploadFailed caller task => exact absurd h (by simp [Event.uploads])
    | _ => exact ⟨rfl, rfl⟩
  · exact fun users u _ _ _ => ⟨rfl, rfl⟩

/-- The new ids of a run without uploads, checked along the way. -/
def freshRun (D : Deployment) : World → List Event → Bool
  | _, [] => true
  | w, e :: es =>
    !e.uploads && w.1.refreshTokens.rows.all (fun t => t.familyId != e.call.fresh.familyId) &&
      freshRun D (nextWorld D e w) es

def playFrom (D : Deployment) (w : World) (es : List Event) : World := es.foldl (fun w e => nextWorld D e w) w

theorem execution_of_freshRun {es : List Event} (h : freshRun D w es = true) (blobs : ∀ key, w.2 key = none)
    (files : w.1.fileAttachments.rows = []) : Execution D FreshIds w es (playFrom D w es) := by
  induction es generalizing w with
  | nil => exact .nil w
  | cons e es ih =>
    simp only [freshRun, Bool.and_eq_true, Bool.not_eq_true', List.all_eq_true, bne_iff_ne] at h
    obtain ⟨⟨hu, hf⟩, hr⟩ := h
    obtain ⟨hb, ha⟩ := nextWorld_of_not_uploads (D := D) (w := w) hu
    refine .cons ⟨hf, fun name => ⟨blobs _, by simp [files]⟩⟩ (ih hr (fun key => ?_) ?_)
    · rw [hb]
      exact blobs key
    · rw [ha]
      exact files

/-- A condition on the events of a run, checked along the way. -/
def along (D : Deployment) (ok : Event → World → Bool) : World → List Event → Bool
  | _, [] => true
  | w, e :: es => ok e w && along D ok (nextWorld D e w) es

theorem execution_of_along {ok : Event → World → Bool} {es : List Event} (h : along D ok w es = true) :
    Execution D (fun e w => ok e w = true) w es (playFrom D w es) := by
  induction es generalizing w with
  | nil => exact .nil w
  | cons e es ih =>
    rw [along, Bool.and_eq_true] at h
    exact .cons h.1 (ih h.2)

theorem reachable_of_freshRun {es : List Event} (h : freshRun D World.initial es = true) :
    Reachable D (playFrom D World.initial es) :=
  ⟨es, execution_of_freshRun h (fun _ => rfl) rfl⟩

theorem playFrom_of_freshRun {es : List Event} (h : freshRun D w es = true) :
    (playFrom D w es).2 = w.2 ∧ (playFrom D w es).1.fileAttachments = w.1.fileAttachments := by
  induction es generalizing w with
  | nil => exact ⟨rfl, rfl⟩
  | cons e es ih =>
    simp only [freshRun, Bool.and_eq_true, Bool.not_eq_true'] at h
    obtain ⟨hb, ha⟩ := nextWorld_of_not_uploads (D := D) (w := w) h.1.1
    obtain ⟨hb', ha'⟩ := ih h.2
    exact ⟨hb'.trans hb, ha'.trans ha⟩

theorem execution_of_reached {es fs : List Event} (h : freshRun D World.initial es = true)
    (h' : freshRun D (playFrom D World.initial es) fs = true) :
    Execution D FreshIds (playFrom D World.initial es) fs (playFrom D (playFrom D World.initial es) fs) := by
  obtain ⟨hb, ha⟩ := playFrom_of_freshRun h
  refine execution_of_freshRun h' (fun key => ?_) ?_
  · rw [hb]
    rfl
  · rw [ha]
    rfl

end Steps

/-! A small deployment: SQLite, the local disk, and a password hash of salt, colon and password. -/

def Bcrypt.sample : Bcrypt where
  hashpw password salt :=
    some (String.ofList (salt.toList ++ ':' :: password.data.toList.map (fun b => Char.ofNat b.toNat)))
  checkpw password hashed :=
    some (((hashed.data.toList.dropWhile (fun b => b ≠ 58)).drop 1) = password.data.toList)

def Deployment.sample : Deployment where
  settings := {}
  backend := .local
  configured := by decide +kernel
  bcrypt := Bcrypt.sample
  sha256 := id
  isDigit c := '0' ≤ c && c ≤ '9'
  lower := Char.toLower

def Deployment.postgresql : Deployment :=
  { Deployment.sample with
    settings := { databaseUrl := "postgresql+asyncpg://localhost/ats_pm" }
    configured := by decide +kernel }

/-- The `n`-th call of a run: every value it generates is its own. -/
def Call.sample (n : ℕ) (caller : Option Uuid) : Call where
  now := n * 1000000
  today := 0
  bearer := caller.map fun id => ⟨true, some id, "", "access", 0, 1000⟩
  fresh := ⟨BitVec.ofNat 128 (16 * n), BitVec.ofNat 128 (16 * n + 1), BitVec.ofNat 128 (16 * n + 2),
    BitVec.ofNat 128 (16 * n + 3), String.ofList (List.replicate n 'r'), ""⟩

def sampleRequests (n : ℕ) : List (Option Uuid × Request) → List Event
  | [] => []
  | (caller, r) :: rest => .request ⟨Call.sample n caller, r⟩ :: sampleRequests (n + 1) rest

def oneTask : List Event :=
  .seedAdmin (Call.sample 1 none) "admin@ats.com" "Admin@12345" "System Administrator" ::
    sampleRequests 2 [(some 16, .createProject { name := "P" }), (some 16, .createTask { projectId := 32, title := "T" })]

theorem exists_of_isOk {o : Outcome} (h : o.isOk = true) : ∃ a, o = .ok a := by
  cases o with
  | error e => exact absurd h (by simp [Except.isOk, Except.toBool])
  | ok a => exact ⟨a, rfl⟩

end ProjectManagement
