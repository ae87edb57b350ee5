import ProjectManagement.Core.Database
import ProjectManagement.Infrastructure.Storage
import ProjectManagement.Library.Transaction

/-!
What every request is given: the objects built at start-up, and the values drawn while it runs
(clock, generated ids, random strings).
-/

namespace ProjectManagement

open Library

/-- The bcrypt package; `none` is a `ValueError`. -/
structure Bcrypt where
  hashpw : ByteArray → String → Option String
  checkpw : ByteArray → ByteArray → Option Bool

/-- The application after its lifespan has started. `sha256` is the hex digest of a string,
`isDigit` the character class `\d`, `lower` the case folding of the database. -/
structure Deployment where
  settings : Settings
  backend : Backend
  configured : getStorage settings = .ok backend
  bcrypt : Bcrypt
  sha256 : String → String
  isDigit : Char → Bool
  lower : Char → Char

def Deployment.engine (D : Deployment) : Engine := D.settings.engine

/-- The claims of a decoded JWT and whether its signature verifies; `sub` is `none` when the
subject is missing or no UUID. -/
structure AccessToken where
  signed : Bool
  sub : Option Uuid
  role : String
  type : String
  iat : ℕ
  exp : ℕ
  deriving DecidableEq, Repr

structure Fresh where
  id : Uuid
  familyId : Uuid
  notificationId : Uuid
  uuid4 : Uuid
  refreshToken : String
  salt : String

structure Call where
  now : Time
  today : Date
  bearer : Option AccessToken
  fresh : Fresh

/-- `func.now()` in a statement of the request. -/
def Call.stamp (D : Deployment) (c : Call) : Time := D.engine.currentTimestamp c.now

/-- A handler, run in the session of `get_db`. -/
abbrev App (α : Type) : Type := Tx Db Blobs Raised α

/-- A lookup by a column without a primary key: two rows are `MultipleResultsFound`. -/
def scalarOneOrNone {ρ : Type} (rows : List ρ) : Except Raised (Option ρ) :=
  match rows with
  | [] => .ok none
  | [r] => .ok (some r)
  | _ => .error .unexpected

theorem scalarOneOrNone_some {ρ : Type} {rows : List ρ} {r : ρ} :
    scalarOneOrNone rows = .ok (some r) ↔ rows = [r] := by
  rcases rows with _ | ⟨a, _ | ⟨b, l⟩⟩ <;> simp [scalarOneOrNone]

theorem scalarOneOrNone_none {ρ : Type} {rows : List ρ} :
    scalarOneOrNone rows = .ok none ↔ rows = [] := by
  rcases rows with _ | ⟨a, _ | ⟨b, l⟩⟩ <;> simp [scalarOneOrNone]

section Flush

variable {ρ : Type} [DecidableEq ρ] {old new r : ρ} {stamp : ρ → ρ} {put : Db → Except Raised Db} {s t : Session Db Blobs}

theorem succeeds_flushed : (if new = old then pure old else do
      Tx.execute put
      pure (stamp new) : App ρ).Succeeds s r t ↔
    (new = old ∧ r = old ∧ t = s) ∨ (new ≠ old ∧ r = stamp new ∧ ∃ d, put s.working = .ok d ∧ t = { s with working := d }) := by
  rw [Tx.succeeds_ite]
  apply or_congr
  · rw [Tx.succeeds_pure]
  · simp only [Tx.succeeds_bind, Tx.succeeds_execute, Tx.succeeds_pure]
    apply and_congr_right
    intro _
    constructor
    · rintro ⟨_, _, ⟨d, hd, rfl⟩, rfl, rfl⟩
      exact ⟨rfl, d, hd, rfl⟩
    · rintro ⟨rfl, d, hd, rfl⟩
      exact ⟨(), _, ⟨d, hd, rfl⟩, rfl, rfl⟩

/-- Where the statement writes the row, the table has what the flush leaves of it. -/
theorem succeeds_flushed_row [Keyed ρ Uuid] {rows : Table ρ} {f : Table ρ → Db} (mem : old ∈ rows.rows) (self : f rows = s.working)
    (puts : ∀ d, put s.working = .ok d → d = f (rows.put (stamp new))) :
    (if new = old then pure old else do
      Tx.execute put
      pure (stamp new) : App ρ).Succeeds s r t ↔
    r = afterFlush stamp old new ∧ (new ≠ old → ∃ d, put s.working = .ok d) ∧ t = { s with working := f (rows.put r) } := by
  rw [succeeds_flushed]
  constructor
  · rintro (⟨hsame, rfl, rfl⟩ | ⟨hne, rfl, d, hd, rfl⟩)
    · rw [afterFlush, if_pos hsame, Table.put_of_mem mem, self]
      exact ⟨rfl, fun hne => absurd hsame hne, rfl⟩
    · rw [afterFlush_of_ne hne, ← puts d hd]
      exact ⟨rfl, fun _ => ⟨d, hd⟩, rfl⟩
  · rintro ⟨rfl, hput, rfl⟩
    by_cases hsame : new = old
    · rw [afterFlush, if_pos hsame, Table.put_of_mem mem, self]
      exact Or.inl ⟨hsame, rfl, rfl⟩
    · obtain ⟨d, hd⟩ := hput hsame
      rw [afterFlush_of_ne hsame, ← puts d hd]
      exact Or.inr ⟨hsame, rfl, d, hd, rfl⟩

end Flush

/-- Pydantic's verdict on the request, reached once the dependencies have been resolved. -/
def validated (errors : List ErrorDetail) : App Unit := Tx.refuseIf (errors ≠ []) (.validation errors)

instance {errors : List ErrorDetail} : Tx.ReadOnly (validated errors) := by
  unfold validated; infer_instance

@[simp] theorem succeeds_validated {errors : List ErrorDetail} {s t : Session Db Blobs} {u : Unit} :
    (validated errors).Succeeds s u t ↔ errors = [] ∧ t = s := by
  simp [validated]

end ProjectManagement
