import ProjectManagement.Library.Text
import ProjectManagement.Shared.Enums

/-! The settings the modelled code reads, and what the two database engines do differently. -/

namespace ProjectManagement

structure Settings where
  databaseUrl : String := "sqlite+aiosqlite:///./ats_pm.db"
  accessTokenExpireMinutes : ℕ := 30
  refreshTokenExpireDays : ℕ := 7
  passwordMinLength : ℕ := 8
  passwordMaxLength : ℕ := 128
  storageBackend : String := "local"
  maxUploadSizeBytes : ℕ := 25 * 1024 * 1024
  s3Bucket : String := ""
  azureContainer : String := ""
  azureConnectionString : String := ""

inductive Environment
  | development | testing | staging | production
  deriving DecidableEq, Repr

/-- The settings with the fields that only their validation reads. -/
structure FullSettings extends Settings where
  environment : Environment := .development
  debug : Bool := false
  jwtSecretKey : String := "change-me-in-production"

def insecureSecrets : List String := ["", "change-me-in-production", "secret", "changeme"]

def startsWith (url start : String) : Bool := start.toList.isPrefixOf url.toList

/-- `url.replace(old, new, 1)` -/
def replaceOnce (url old new : String) : String := String.ofList (Library.replaceFirst old.toList new.toList url.toList)

def replace (url old new : String) : String := String.ofList (Library.replaceAll old.toList new.toList url.toList)

def normalizeUrl (url : String) : String :=
  if startsWith url "postgres://" || startsWith url "postgresql://" then
    let url :=
      if !startsWith url "postgresql+asyncpg://" && !startsWith url "postgres+asyncpg://" then
        if startsWith url "postgres://" then replaceOnce url "postgres://" "postgresql+asyncpg://"
        else replaceOnce url "postgresql://" "postgresql+asyncpg://"
      else url
    replace (replace url "?sslmode=" "?ssl=") "&sslmode=" "&ssl="
  else url

def FullSettings.normalizeAndValidate (s : FullSettings) : Except String FullSettings :=
  let s := { s with databaseUrl := normalizeUrl s.databaseUrl }
  if s.environment = .production then
    if s.jwtSecretKey ∈ insecureSecrets ∨ s.jwtSecretKey.length < 32 then
      .error "JWT_SECRET_KEY must be set to a strong value (>=32 chars) in production"
    else if startsWith s.databaseUrl "sqlite" then .error "SQLite is not supported in production; set DATABASE_URL"
    else if s.debug then .error "DEBUG must be disabled in production"
    else .ok s
  else .ok s

inductive Engine
  | postgresql | sqlite
  deriving DecidableEq, Repr

/-- `build_engine` tells the engines apart by the start of the URL. -/
def Settings.engine (s : Settings) : Engine :=
  if "sqlite".toList.isPrefixOf s.databaseUrl.toList then .sqlite else .postgresql

namespace Engine

/-- SQLite leaves foreign keys unchecked: no connection issues the pragma that turns them on. -/
def enforcesForeignKeys : Engine → Bool
  | postgresql => true
  | sqlite => false

/-- SQLite ignores the length of a `VARCHAR(n)`. -/
def enforcesLengths : Engine → Bool
  | postgresql => true
  | sqlite => false

/-- PostgreSQL takes no text with a NUL in it, neither for a column nor as a parameter of a query. -/
def refusesNul : Engine → Bool
  | postgresql => true
  | sqlite => false

def nullsFirst : Engine → Bool
  | postgresql => false
  | sqlite => true

/-- SQLite has no default escape character in `LIKE`. -/
def likeEscape : Engine → Option Char
  | postgresql => some '\\'
  | sqlite => none

/-- `CURRENT_TIMESTAMP`: SQLite keeps whole seconds. -/
def currentTimestamp : Engine → Time → Time
  | postgresql, t => t
  | sqlite, t => t / 1000000 * 1000000

end Engine

def holdsNul (e : Engine) (texts : List String) : Bool :=
  e.refusesNul && texts.any (fun s => s.toList.contains '\x00')

theorem holdsNul_append {e : Engine} {texts texts' : List String} :
    holdsNul e (texts ++ texts') = false ↔ holdsNul e texts = false ∧ holdsNul e texts' = false := by
  cases h : e.refusesNul <;> simp [holdsNul, h]

theorem holdsNul_cons {e : Engine} {text : String} {texts : List String} :
    holdsNul e (text :: texts) = false ↔ holdsNul e [text] = false ∧ holdsNul e texts = false :=
  @holdsNul_append e [text] texts

end ProjectManagement
