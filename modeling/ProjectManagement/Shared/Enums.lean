import Mathlib.Data.Rat.Defs

/-! Enums and scalar types shared by every module. The database stores an enum by its member name. -/

namespace ProjectManagement

abbrev Uuid := BitVec 128

/-- Microseconds since the epoch. -/
abbrev Time := ℕ

/-- Days, counted as `date.toordinal` does. -/
abbrev Date := ℕ

inductive UserRole
  | admin | employee
  deriving DecidableEq, Repr

def UserRole.value : UserRole → String
  | admin => "admin"
  | employee => "employee"

inductive ProjectStatus
  | planning | active | onHold | completed | archived
  deriving DecidableEq, Repr

def ProjectStatus.value : ProjectStatus → String
  | planning => "planning"
  | active => "active"
  | onHold => "on_hold"
  | completed => "completed"
  | archived => "archived"

def ProjectStatus.members : List ProjectStatus := [.planning, .active, .onHold, .completed, .archived]

inductive MemberRole
  | lead | contributor
  deriving DecidableEq, Repr

inductive TaskStatus
  | todo | inProgress | inReview | done
  deriving DecidableEq, Repr

def TaskStatus.value : TaskStatus → String
  | todo => "todo"
  | inProgress => "in_progress"
  | inReview => "in_review"
  | done => "done"

def TaskStatus.members : List TaskStatus := [.todo, .inProgress, .inReview, .done]

theorem TaskStatus.value_injective : Function.Injective TaskStatus.value := by
  intro a b
  cases a <;> cases b <;> simp [TaskStatus.value]

inductive TaskPriority
  | low | medium | high | urgent
  deriving DecidableEq, Repr

def TaskPriority.value : TaskPriority → String
  | low => "low"
  | medium => "medium"
  | high => "high"
  | urgent => "urgent"

def TaskPriority.members : List TaskPriority := [.low, .medium, .high, .urgent]

theorem TaskPriority.value_injective : Function.Injective TaskPriority.value := by
  intro a b
  cases a <;> cases b <;> simp [TaskPriority.value]

inductive NotificationType
  | projectMembership | taskAssignment | general
  deriving DecidableEq, Repr

inductive SortOrder
  | asc | desc
  deriving DecidableEq, Repr

/-- A field of a partial update: left out, sent as `null`, or sent with a value. -/
inductive Field (α : Type)
  | unset
  | null
  | value (a : α)
  deriving DecidableEq, Repr

namespace Field

variable {α : Type}

def isSet : Field α → Bool
  | unset => false
  | null => true
  | value _ => true

def isNull : Field α → Bool
  | unset => false
  | null => true
  | value _ => false

def sent : Field α → Option α
  | unset => none
  | null => none
  | value a => some a

/-- What `setattr` leaves in a nullable column. -/
def assign (old : Option α) : Field α → Option α
  | unset => old
  | null => none
  | value a => some a

/-- What `setattr` leaves in a column that is `NOT NULL`, when the field is not `null`. -/
def assignNotNull (old : α) : Field α → α
  | unset => old
  | null => old
  | value a => a

theorem isNull_eq_true {f : Field α} : f.isNull = true ↔ f = .null := by
  cases f <;> simp [isNull]

end Field

end ProjectManagement
