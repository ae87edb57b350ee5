import ProjectManagement.Shared.Enums

/-! Error codes, the exceptions a request can raise, and the envelope each one becomes. -/

namespace ProjectManagement

inductive ErrorCode
  | internalError | validationError | notFound | conflict | staleVersion | rateLimited
  | unauthorized | forbidden | invalidCredentials | invalidToken | tokenReuseDetected
  | inactiveAccount | weakPassword
  | duplicateEmail | alreadyMember | fileTooLarge
  deriving DecidableEq, Repr

structure AppException where
  statusCode : ℕ
  code : ErrorCode
  detail : String
  field : Option String := none
  deriving DecidableEq, Repr

def notFoundError (detail : String) : AppException := ⟨404, .notFound, detail, none⟩

def unauthorizedError (detail : String) (code : ErrorCode) : AppException := ⟨401, code, detail, none⟩

def forbiddenError (detail : String) : AppException := ⟨403, .forbidden, detail, none⟩

def conflictError (detail : String) (code : ErrorCode) : AppException := ⟨409, code, detail, none⟩

def validationAppError (detail : String) (code : ErrorCode) (field : String) : AppException :=
  ⟨422, code, detail, some field⟩

structure ErrorDetail where
  code : ErrorCode
  detail : String
  field : Option String
  deriving DecidableEq, Repr

/-- What ends a request early. `unexpected` is every exception without a handler of its own:
a `DataError`, a `ValueError`, a failed `assert`, `MultipleResultsFound`. -/
inductive Raised
  | app (e : AppException)
  | http (statusCode : ℕ) (detail : String)
  | validation (errors : List ErrorDetail)
  | staleData
  | integrity
  | unexpected
  deriving DecidableEq, Repr

structure ErrorResponse where
  statusCode : ℕ
  message : String
  errors : List ErrorDetail
  deriving DecidableEq, Repr

def httpErrorCode : ℕ → ErrorCode
  | 401 => .unauthorized
  | 403 => .forbidden
  | 404 => .notFound
  | 405 => .validationError
  | 409 => .conflict
  | _ => .internalError

/-- The text SQLAlchemy gives a `StaleDataError` of one versioned `UPDATE`. -/
def staleDataText : String :=
  "UPDATE statement on table 'tasks' expected to update 1 row(s); 0 were matched."

def Raised.response : Raised → ErrorResponse
  | app e => ⟨e.statusCode, e.detail, [⟨e.code, e.detail, e.field⟩]⟩
  | http status detail => ⟨status, detail, [⟨httpErrorCode status, detail, none⟩]⟩
  | validation errors => ⟨422, "Validation failed", errors⟩
  | staleData => ⟨409, "The resource was modified by another request; retry with fresh data",
      [⟨.staleVersion, staleDataText, none⟩]⟩
  | integrity => ⟨409, "The request conflicts with existing data",
      [⟨.conflict, "Database constraint violated", none⟩]⟩
  | unexpected => ⟨500, "Internal server error", [⟨.internalError, "An unexpected error occurred", none⟩]⟩

/-! Validation of request fields, as the schemas declare it. -/

def characters (n : ℕ) : String := toString n ++ (if n = 1 then " character" else " characters")

def stringLength (field : String) (low high : ℕ) (s : String) : List ErrorDetail :=
  if s.length < low then
    [⟨.validationError, "String should have at least " ++ characters low, some field⟩]
  else if high < s.length then
    [⟨.validationError, "String should have at most " ++ characters high, some field⟩]
  else []

def minLength (field : String) (low : ℕ) (s : String) : List ErrorDetail :=
  if s.length < low then
    [⟨.validationError, "String should have at least " ++ characters low, some field⟩]
  else []

def requiredField (field text : String) : List ErrorDetail :=
  if text = "" then [⟨.validationError, "Field required", some field⟩] else []

def Field.check {α : Type} (f : Field α) (errors : α → List ErrorDetail) : List ErrorDetail :=
  match f with
  | unset => []
  | null => []
  | value a => errors a

theorem stringLength_eq_nil {field : String} {low high : ℕ} {s : String} :
    stringLength field low high s = [] ↔ low ≤ s.length ∧ s.length ≤ high := by
  unfold stringLength
  split
  · simp only [List.cons_ne_self, false_iff]; omega
  · split
    · simp only [List.cons_ne_self, false_iff]; omega
    · simp only [true_iff]; omega

end ProjectManagement
