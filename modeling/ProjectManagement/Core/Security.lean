import ProjectManagement.Core.Dependencies

/-! Password hashing and policy, access tokens, refresh-token hashes. -/

namespace ProjectManagement

open Library

variable (D : Deployment) (c : Call)

def hashPassword (password : String) : App String :=
  Tx.orRaise (D.bcrypt.hashpw password.toUTF8 c.fresh.salt) .unexpected

/-- A `ValueError` from bcrypt counts as a mismatch. -/
def verifyPassword (password hashed : String) : Bool :=
  (D.bcrypt.checkpw password.toUTF8 hashed.toUTF8).getD false

def passwordProblems (password : String) : List String :=
  let s := D.settings
  let letters := password.toList
  (if password.length < s.passwordMinLength then ["at least " ++ toString s.passwordMinLength ++ " characters"] else [])
    ++ (if s.passwordMaxLength < password.length then ["at most " ++ toString s.passwordMaxLength ++ " characters"] else [])
    ++ (if letters.any (fun x => 'A' ≤ x && x ≤ 'Z') then [] else ["an uppercase letter"])
    ++ (if letters.any (fun x => 'a' ≤ x && x ≤ 'z') then [] else ["a lowercase letter"])
    ++ (if letters.any D.isDigit then [] else ["a digit"])

def enforcePasswordPolicy (password : String) : App Unit :=
  Tx.refuseIf (passwordProblems D password ≠ [])
    (.app (validationAppError ("Password must contain " ++ ", ".intercalate (passwordProblems D password))
      .weakPassword "password"))

def Time.seconds (t : Time) : ℕ := t / 1000000

def createAccessToken (userId : Uuid) (role : UserRole) : AccessToken where
  signed := true
  sub := some userId
  role := role.value
  type := "access"
  iat := Time.seconds c.now
  exp := Time.seconds (c.now + D.settings.accessTokenExpireMinutes * 60 * 1000000)

/-- `jwt.decode` rejects a bad signature and an `exp` in the past; both become `none`. -/
def decodeAccessToken (token : AccessToken) : Option AccessToken :=
  if token.signed = true ∧ Time.seconds c.now ≤ token.exp ∧ token.type = "access" then some token else none

def generateRefreshToken : String := c.fresh.refreshToken

def hashRefreshToken (token : String) : String := D.sha256 token

instance {password : String} : Tx.ReadOnly (hashPassword D c password) := by
  unfold hashPassword; infer_instance

instance {password : String} : Tx.ReadOnly (enforcePasswordPolicy D password) := by
  unfold enforcePasswordPolicy; infer_instance

section Specs

variable {D c} {s t : Session Db Blobs}

@[simp] theorem succeeds_hashPassword {password hashed : String} :
    (hashPassword D c password).Succeeds s hashed t ↔
      D.bcrypt.hashpw password.toUTF8 c.fresh.salt = some hashed ∧ t = s := by
  simp only [hashPassword, Tx.succeeds_orRaise]

@[simp] theorem succeeds_enforcePasswordPolicy {password : String} {u : Unit} :
    (enforcePasswordPolicy D password).Succeeds s u t ↔ passwordProblems D password = [] ∧ t = s := by
  simp only [enforcePasswordPolicy, Tx.succeeds_refuseIf, ne_eq, not_not]

end Specs

end ProjectManagement
