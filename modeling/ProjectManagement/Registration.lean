import Mathlib
import ProjectManagement.System

/-!
Registration and the login after it. Registration stores the address as its validator returns it; the login form hands over
the text that was typed, and the account is looked up under that text.
-/

namespace ProjectManagement

open Library

structure RegisterBody where
  email : String
  password : String
  fullName : String

/-- The payload pydantic makes of the body; an error of the address comes before those of the other fields. -/
def RegisterBody.validate (emailStr : EmailStr) (body : RegisterBody) : Except Raised UserRegister :=
  match emailStr.validate body.email with
  | .ok email => .ok ⟨email, body.password, body.fullName⟩
  | .error text => .error (.validation
      (⟨.validationError, text, some "email"⟩ :: UserRegister.errors ⟨body.email, body.password, body.fullName⟩))

def postRegister (emailStr : EmailStr) (D : Deployment) (c : Call) (body : RegisterBody) : App ApiResponse := do
  let payload ← Tx.ofExcept (body.validate emailStr)
  Routes.register D c payload

def LogsIn (D : Deployment) (c : Call) (username password : String) (w : World) (user : UserOut) : Prop :=
  ∃ a accessToken refreshToken, outcome D ⟨c, .login username password⟩ w = .ok a ∧ a.data = .login accessToken refreshToken user

def FreshSession (D : Deployment) (c : Call) (d : Db) : Prop :=
  ∀ r ∈ d.refreshTokens.rows, r.id ≠ c.fresh.id ∧ r.tokenHash ≠ hashRefreshToken D c.fresh.refreshToken

variable {emailStr : EmailStr} {D : Deployment} {c c' : Call} {body : RegisterBody} {a : ApiResponse} {w w' : World}
  {user : UserOut} {d : Db} {u : User} {username password : String}

theorem postRegister_ok (h : (postRegister emailStr D c body).run w = (.ok a, w')) :
    ∃ email hashed users, emailStr.validate body.email = .ok email ∧ body.password ≠ "" ∧
      UserRepository.oneWithEmail D email w.1 = .ok none ∧
      D.bcrypt.hashpw body.password.toUTF8 c.fresh.salt = some hashed ∧
      users.rows = w.1.users.rows ++ [newUser D c email hashed body.fullName .employee] ∧
      w' = ({ w.1 with users := users }, w.2) ∧
      a.data = .user (UserOut.modelValidate (newUser D c email hashed body.fullName .employee)) := by
  obtain ⟨t, ht, rfl⟩ := Tx.run_ok.mp h
  simp only [postRegister, Routes.registerWith, AuthService.registerWith, Tx.succeeds_bind, Tx.succeeds_ofExcept, succeeds_validated,
    succeeds_enforcePasswordPolicy, UserRepository.succeeds_getByEmail, Tx.succeeds_refuseIf, Bool.not_eq_true,
    Option.isSome_eq_false_iff, Option.isNone_iff_eq_none, succeeds_hashPassword, UserRepository.succeeds_addWith,
    Tx.succeeds_pure] at ht
  obtain ⟨payload, _, ⟨hp, rfl⟩, _, _, ⟨errors, rfl⟩, u, _, ⟨_, _, ⟨-, rfl⟩, o, _, ⟨free, rfl⟩, _, _, ⟨rfl, rfl⟩, hashed, _,
    ⟨hash, rfl⟩, _, _, ⟨d', stored, rfl⟩, rfl, rfl⟩, rfl, rfl⟩ := ht
  rw [RegisterBody.validate] at hp
  cases he : emailStr.validate body.email with
  | error text => simp [he] at hp
  | ok email =>
    simp only [he, Except.ok.injEq] at hp
    subst hp
    obtain ⟨-, -, users, rows, rfl⟩ := Db.insertUser_ok stored
    have hlength := (stringLength_eq_nil.mp (List.append_eq_nil_iff.mp errors).1).1
    refine ⟨email, hashed, users, rfl, ?_, free, hash, rows, rfl, rfl⟩
    intro hempty
    simp [hempty] at hlength

theorem oneWithEmail_of_append {users : Table User} (free : UserRepository.oneWithEmail D u.email d = .ok none)
    (live : u.live = true) (rows : users.rows = d.users.rows ++ [u]) :
    UserRepository.oneWithEmail D u.email { d with users := users } = .ok (some u) := by
  obtain ⟨nul, free⟩ := UserRepository.oneWithEmail_none.mp free
  refine UserRepository.oneWithEmail_some.mpr ⟨nul, ?_⟩
  rw [UserRepository.withEmail] at free ⊢
  rw [rows, List.filter_append, free]
  simp [live]

theorem LogsIn.email (h : LogsIn D c username password w user) : user.email = username := by
  obtain ⟨a, access, refresh, ha, hdata⟩ := h
  obtain ⟨t, ht, -⟩ := succeeds_of_outcome ha
  simp only [handle, Routes.login, AuthService.login, Tx.succeeds_bind, succeeds_validated, UserRepository.succeeds_getByEmail,
    Tx.succeeds_orRaise, Option.filter_eq_some_iff, Tx.succeeds_refuseIf, Tx.succeeds_pure] at ht
  obtain ⟨_, _, ⟨-, rfl⟩, r, _, ⟨o, _, ⟨account, rfl⟩, u, _, ⟨⟨rfl, -⟩, rfl⟩, _, _, ⟨-, rfl⟩, pair, _, -, rfl, rfl⟩, rfl, rfl⟩ := ht
  obtain rfl := (Data.login.inj hdata).2.2
  have hu : u ∈ UserRepository.withEmail username w.1 := by simp [(UserRepository.oneWithEmail_some.mp account).2]
  rw [UserRepository.withEmail, List.mem_filter, Bool.and_eq_true, beq_iff_eq] at hu
  exact hu.2.2

theorem LogsIn.of_account (errors : loginErrors username password = [])
    (account : UserRepository.oneWithEmail D username w.1 = .ok (some u))
    (verified : verifyPassword D password u.hashedPassword = true) (active : u.isActive = true) (fresh : FreshSession D c w.1) :
    LogsIn D c username password w (UserOut.modelValidate u) := by
  have hu : u ∈ UserRepository.withEmail username w.1 := by simp [(UserRepository.oneWithEmail_some.mp account).2]
  have hmem : u ∈ w.1.users.rows := (List.mem_filter.mp hu).1
  obtain ⟨tokens, -, hstored⟩ := Db.insertRefreshToken_of_new (e := D.engine)
    (r := AuthService.issuedToken D c u.id c.fresh.familyId) fresh hmem rfl
  have hlogin : (AuthService.login D c username password).Succeeds ⟨w.1, w.1, w.2⟩
      (⟨createAccessToken D c u.id u.role, generateRefreshToken c⟩, u) ⟨w.1, { w.1 with refreshTokens := tokens }, w.2⟩ := by
    simp only [AuthService.login, AuthService.issuePair, Tx.succeeds_bind, UserRepository.succeeds_getByEmail,
      Tx.succeeds_orRaise, Tx.succeeds_refuseIf, RefreshTokenRepository.succeeds_add, Tx.succeeds_pure]
    exact ⟨some u, _, ⟨account, rfl⟩, u, _, ⟨Option.filter_eq_some_iff.mpr ⟨rfl, verified⟩, rfl⟩, (), _,
      ⟨by simp [active], rfl⟩, _, _, ⟨(), _, ⟨_, hstored, rfl⟩, rfl, rfl⟩, rfl, rfl⟩
  have hroute : (Routes.login D c username password).Succeeds ⟨w.1, w.1, w.2⟩
      { message := some "Login successful"
        data := .login (createAccessToken D c u.id u.role) (generateRefreshToken c) (UserOut.modelValidate u) }
      ⟨w.1, { w.1 with refreshTokens := tokens }, w.2⟩ :=
    Tx.Succeeds.seq (succeeds_validated.mpr ⟨errors, rfl⟩) (hlogin.bind (Tx.succeeds_pure.mpr ⟨rfl, rfl⟩))
  exact ⟨_, _, _, congrArg Prod.fst (Tx.run_of_succeeds hroute), rfl⟩

/-- Whoever registers can log in with the same two strings exactly when the address was sent as the validator returns it. -/
theorem login_after_register_iff (verifies : ∀ hashed, D.bcrypt.hashpw body.password.toUTF8 c.fresh.salt = some hashed →
      D.bcrypt.checkpw body.password.toUTF8 hashed.toUTF8 = some true)
    (registered : (postRegister emailStr D c body).run w = (.ok a, w')) (answer : a.data = .user user)
    (fresh : FreshSession D c' w'.1) :
    LogsIn D c' body.email body.password w' user ↔ emailStr.validate body.email = .ok body.email := by
  obtain ⟨email, hashed, users, valid, nonempty, free, hash, rows, rfl, hdata⟩ := postRegister_ok registered
  obtain rfl := Data.user.inj (answer.symm.trans hdata)
  constructor
  · intro h
    have heq : email = body.email := h.email
    rw [valid, heq]
  · intro h
    obtain rfl : email = body.email := Except.ok.inj (valid.symm.trans h)
    have account : UserRepository.oneWithEmail D body.email { w.1 with users := users } =
        .ok (some (newUser D c body.email hashed body.fullName .employee)) :=
      oneWithEmail_of_append (u := newUser D c body.email hashed body.fullName .employee) free rfl rows
    have errors : loginErrors body.email body.password = [] := by
      simp [loginErrors, requiredField, nonempty, emailStr.nonempty body.email body.email h]
    have verified : verifyPassword D body.password hashed = true := by
      rw [verifyPassword, verifies hashed hash]
      rfl
    exact .of_account errors account verified rfl fresh

def lowerDomain : List Char → List Char
  | [] => []
  | x :: rest => if x = '@' then x :: rest.map Char.toLower else x :: lowerDomain rest

theorem lowerDomain_lowerDomain (text : List Char) : lowerDomain (lowerDomain text) = lowerDomain text := by
  induction text with
  | nil => rfl
  | cons x rest ih =>
    by_cases hx : x = '@'
    · simp [lowerDomain, hx]
    · simp [lowerDomain, hx, ih]

/-- The domain is put in lower case; the part before the `@` stays. -/
def sampleAddress (text : String) : Except String String :=
  let address := lowerDomain text.toList
  if '@' ∈ address ∧ address.length ≤ 254 ∧ '\x00' ∉ address then .ok (String.ofList address)
  else .error "value is not a valid email address: An email address must have an @-sign."

theorem sampleAddress_ok {text address : String} (h : sampleAddress text = .ok address) :
    address.toList = lowerDomain text.toList ∧ '@' ∈ address.toList ∧ address.length ≤ 254 ∧ '\x00' ∉ address.toList := by
  simp only [sampleAddress] at h
  split at h
  · next valid =>
    obtain rfl := Except.ok.inj h
    simpa using valid
  · simp at h

def EmailStr.sample : EmailStr where
  validate := sampleAddress
  settled := by
    intro text address h
    obtain ⟨hlist, valid⟩ := sampleAddress_ok h
    have hfixed : lowerDomain address.toList = address.toList := by rw [hlist, lowerDomain_lowerDomain]
    rw [← String.length_toList] at valid
    simp only [sampleAddress, hfixed, valid, not_false_eq_true, and_self, if_true, String.ofList_toList]
  nonempty := by
    rintro text address h rfl
    exact absurd (sampleAddress_ok h).2.1 (by decide)
  bounded := fun _ _ h => (sampleAddress_ok h).2.2.1
  printable := fun _ _ h => (sampleAddress_ok h).2.2.2

theorem login_after_register_iff_sample :
    LogsIn .sample (Call.sample 5 none) "Ann@b.c" "Passw0rd"
        ((postRegister .sample .sample (Call.sample 4 none) ⟨"Ann@b.c", "Passw0rd", "Ann"⟩).run
          (playFrom .sample World.initial oneTask)).2
        ⟨64, "Ann@b.c", "Ann", .employee, true, 4000000, 4000000⟩ := by
  have registered : (postRegister .sample .sample (Call.sample 4 none) ⟨"Ann@b.c", "Passw0rd", "Ann"⟩).run
      (playFrom .sample World.initial oneTask) =
        (.ok { statusCode := 201, message := some "Registration successful",
               data := .user ⟨64, "Ann@b.c", "Ann", .employee, true, 4000000, 4000000⟩ },
          ((postRegister .sample .sample (Call.sample 4 none) ⟨"Ann@b.c", "Passw0rd", "Ann"⟩).run
            (playFrom .sample World.initial oneTask)).2) := Prod.ext (by decide +kernel) rfl
  apply (login_after_register_iff ?_ registered rfl ?_).mpr (by decide +kernel)
  · intro hashed h
    obtain rfl := Option.some.inj h
    decide +kernel
  · unfold FreshSession
    decide +kernel

/-- An address with a capital letter in its domain: the account exists afterwards, under another spelling. -/
theorem registered_cannot_log_in :
    Reachable .sample (playFrom .sample World.initial oneTask) ∧
      ((postRegister .sample .sample (Call.sample 4 none) ⟨"ann@B.c", "Passw0rd", "Ann"⟩).run
        (playFrom .sample World.initial oneTask)).1.isOk = true ∧
      outcome .sample ⟨Call.sample 5 none, .login "ann@B.c" "Passw0rd"⟩
          ((postRegister .sample .sample (Call.sample 4 none) ⟨"ann@B.c", "Passw0rd", "Ann"⟩).run
            (playFrom .sample World.initial oneTask)).2 =
        .error (.app (unauthorizedError "Incorrect email or password" .invalidCredentials)) ∧
      (outcome .sample ⟨Call.sample 5 none, .login "ann@b.c" "Passw0rd"⟩
        ((postRegister .sample .sample (Call.sample 4 none) ⟨"ann@B.c", "Passw0rd", "Ann"⟩).run
          (playFrom .sample World.initial oneTask)).2).isOk = true :=
  ⟨reachable_of_freshRun (by decide +kernel), by decide +kernel, by decide +kernel, by decide +kernel⟩

end ProjectManagement
