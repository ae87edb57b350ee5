import ProjectManagement.Core.Security
import ProjectManagement.Shared.Pagination

/-! The users module: schemas, repository and service. -/

namespace ProjectManagement

open Library

variable (D : Deployment) (c : Call)

/-- pydantic's `EmailStr`: the normalised address, or the text of the validation error. -/
structure EmailStr where
  validate : String → Except String String
  settled : ∀ text address, validate text = .ok address → validate address = .ok address
  nonempty : ∀ text address, validate text = .ok address → address ≠ ""
  bounded : ∀ text address, validate text = .ok address → address.length ≤ 254
  printable : ∀ text address, validate text = .ok address → '\x00' ∉ address.toList

structure UserOut where
  id : Uuid
  email : String
  fullName : String
  role : UserRole
  isActive : Bool
  createdAt : Time
  updatedAt : Time
  deriving DecidableEq, Repr

/-- The fields as they are stored: that the address is put through `EmailStr` once more is left to the response as a whole. -/
def UserOut.modelValidate (u : User) : UserOut :=
  ⟨u.id, u.email, u.fullName, u.role, u.isActive, u.createdAt, u.updatedAt⟩

structure UserCreate where
  email : String
  password : String
  fullName : String
  role : UserRole := .employee

def UserCreate.errors (p : UserCreate) : List ErrorDetail :=
  stringLength "password" 8 128 p.password ++ stringLength "full_name" 1 255 p.fullName

structure UserUpdate where
  email : Field String := .unset
  fullName : Field String := .unset
  isActive : Field Bool := .unset

def UserUpdate.errors (p : UserUpdate) : List ErrorDetail :=
  p.fullName.check (stringLength "full_name" 1 255)

structure UserRoleUpdate where
  role : UserRole

/-! What writes an account is written over the statement that stores the row, so that the schema can be varied; a list is written
over what the database makes of its `ORDER BY`. -/

namespace UserRepository

def find (userId : Uuid) (d : Db) : Option User := d.users.rows.find? (fun u => u.live && u.id == userId)

def get (userId : Uuid) : App (Option User) := Tx.query (find userId)

def withEmail (email : String) (d : Db) : List User :=
  d.users.rows.filter (fun u => u.live && u.email == email)

def oneWithEmail (email : String) (d : Db) : Except Raised (Option User) :=
  if holdsNul D.engine [email] then .error .unexpected else scalarOneOrNone (withEmail email d)

def getByEmail (email : String) : App (Option User) := Tx.select (oneWithEmail D email)

def addWith (insert : User → Db → Except Raised Db) (u : User) : App Unit := Tx.execute (insert u)

abbrev add (u : User) : App Unit := addWith (Db.insertUser D.engine) u

def stamped (u : User) : User := { u with updatedAt := c.stamp D }

/-- A flush of a changed user: no `UPDATE` without a net change, `updated_at` with one. -/
def flushWith (put : User → Db → Except Raised Db) (old new : User) : App User :=
  if new = old then pure old
  else do
    Tx.execute (put (stamped D c new))
    pure (stamped D c new)

abbrev flush (old new : User) : App User := flushWith D c (Db.putUser D.engine) old new

def deleteWith (put : User → Db → Except Raised Db) (u : User) : App User :=
  flushWith D c put u { u with deletedAt := some c.now }

abbrev delete (u : User) : App User := deleteWith D c (Db.putUser D.engine) u

def listQuery (search : Option String) (d : Db) : List User :=
  searched search (fun s u => ilike D.lower D.engine s u.email || ilike D.lower D.engine s u.fullName)
    (d.users.rows.filter User.live)

end UserRepository

def newUser (email hashedPassword fullName : String) (role : UserRole) : User :=
  ⟨c.fresh.id, email, hashedPassword, fullName, role, true, c.stamp D, c.stamp D, none⟩

/-- `setattr` for every field sent; `null` in a `NOT NULL` column fails at the flush. -/
def UserUpdate.setattrs (p : UserUpdate) (u : User) : Except Raised User :=
  if p.email.isNull ∨ p.fullName.isNull ∨ p.isActive.isNull then .error .integrity
  else .ok { u with
    email := p.email.assignNotNull u.email
    fullName := p.fullName.assignNotNull u.fullName
    isActive := p.isActive.assignNotNull u.isActive }

namespace UserService

def listUsersWith (sorter : Sorter User) (params : PageParams) : App (List User × PaginationMeta) :=
  Tx.select fun d =>
    paginateSearched D.engine params (sorter
      (applySort params
        [("email", fun u => .text u.email), ("full_name", fun u => .text u.fullName),
          ("created_at", fun u => .number u.createdAt), ("role", fun u => .text u.role.value)]
        (fun u => .number u.createdAt))
      (UserRepository.listQuery D params.search d))

abbrev listUsers (params : PageParams) : App (List User × PaginationMeta) := listUsersWith D (orderBy D.engine) params

def getUser (userId : Uuid) (actor : User) : App User := do
  Tx.refuseIf (actor.role ≠ .admin ∧ actor.id ≠ userId) (.app (forbiddenError "You can only view your own profile"))
  let user ← UserRepository.get userId
  Tx.orRaise user (.app (notFoundError "User not found"))

def createUserWith (insert : User → Db → Except Raised Db) (p : UserCreate) : App User := do
  enforcePasswordPolicy D p.password
  let existing ← UserRepository.getByEmail D p.email
  Tx.refuseIf (existing.isSome = true) (.app (conflictError "Email already registered" .duplicateEmail))
  let hashed ← hashPassword D c p.password
  let user := newUser D c p.email hashed p.fullName p.role
  UserRepository.addWith insert user
  pure user

abbrev createUser (p : UserCreate) : App User := createUserWith D c (Db.insertUser D.engine) p

/-- The duplicate check of `update_user`: only for an email that is sent and differs. -/
def checkEmail (email : Field String) (user : User) : App Unit :=
  match email with
  | .value e =>
    if e = user.email then pure ()
    else do
      let existing ← UserRepository.getByEmail D e
      Tx.refuseIf (existing.isSome = true) (.app (conflictError "Email already registered" .duplicateEmail))
  | .null => pure () -- `email = NULL` matches no row
  | .unset => pure ()

def updateUserWith (put : User → Db → Except Raised Db) (userId : Uuid) (p : UserUpdate) (actor : User) : App User := do
  Tx.refuseIf (actor.role ≠ .admin ∧ actor.id ≠ userId) (.app (forbiddenError "You can only update your own profile"))
  let found ← UserRepository.get userId
  let user ← Tx.orRaise found (.app (notFoundError "User not found"))
  Tx.refuseIf (p.isActive.isSet = true ∧ actor.role ≠ .admin)
    (.app (forbiddenError "Only admins can change account status"))
  checkEmail D p.email user
  let changed ← Tx.ofExcept (p.setattrs user)
  UserRepository.flushWith D c put user changed

abbrev updateUser (userId : Uuid) (p : UserUpdate) (actor : User) : App User :=
  updateUserWith D c (Db.putUser D.engine) userId p actor

def updateRoleWith (put : User → Db → Except Raised Db) (userId : Uuid) (p : UserRoleUpdate) : App User := do
  let found ← UserRepository.get userId
  let user ← Tx.orRaise found (.app (notFoundError "User not found"))
  UserRepository.flushWith D c put user { user with role := p.role }

abbrev updateRole (userId : Uuid) (p : UserRoleUpdate) : App User := updateRoleWith D c (Db.putUser D.engine) userId p

def deleteUserWith (put : User → Db → Except Raised Db) (userId : Uuid) (actor : User) : App Unit := do
  Tx.refuseIf (userId = actor.id) (.app (forbiddenError "You cannot delete your own account"))
  let found ← UserRepository.get userId
  let user ← Tx.orRaise found (.app (notFoundError "User not found"))
  let _ ← UserRepository.deleteWith D c put user

abbrev deleteUser (userId : Uuid) (actor : User) : App Unit := deleteUserWith D c (Db.putUser D.engine) userId actor

end UserService

section Specs

variable {D c} {s t : Session Db Blobs} {d d' : Db} {u v : User} {id : Uuid} {email : String}

namespace UserRepository

theorem find_eq_some : find id d = some u ↔ u ∈ d.users.rows ∧ u.live = true ∧ u.id = id :=
  Table.find?_eq_some

@[simp] theorem succeeds_get {o : Option User} : (get id).Succeeds s o t ↔ o = find id s.working ∧ t = s := by
  simp only [get, Tx.succeeds_query]

theorem oneWithEmail_eq_ok {o : Option User} :
    oneWithEmail D email d = .ok o ↔ holdsNul D.engine [email] = false ∧ scalarOneOrNone (withEmail email d) = .ok o := by
  cases h : holdsNul D.engine [email] <;> simp [oneWithEmail, h]

theorem oneWithEmail_some :
    oneWithEmail D email d = .ok (some u) ↔ holdsNul D.engine [email] = false ∧ withEmail email d = [u] := by
  rw [oneWithEmail_eq_ok, scalarOneOrNone_some]

theorem oneWithEmail_none :
    oneWithEmail D email d = .ok none ↔ holdsNul D.engine [email] = false ∧ withEmail email d = [] := by
  rw [oneWithEmail_eq_ok, scalarOneOrNone_none]

@[simp] theorem succeeds_getByEmail {o : Option User} :
    (getByEmail D email).Succeeds s o t ↔ oneWithEmail D email s.working = .ok o ∧ t = s := by
  simp only [getByEmail, Tx.succeeds_select]

@[simp] theorem succeeds_addWith {insert : User → Db → Except Raised Db} {r : Unit} :
    (addWith insert u).Succeeds s r t ↔ ∃ d, insert u s.working = .ok d ∧ t = { s with working := d } := by
  simp only [addWith, Tx.succeeds_execute]

theorem afterFlush_id (h : v.id = u.id) : (afterFlush (stamped D c) u v).id = u.id :=
  (afterFlush_column User.id rfl).trans h

theorem find_flushed (found : find id d = some u) (sameId : v.id = u.id) (sameLive : v.live = u.live)
    (users : d'.users = d.users.put (afterFlush (stamped D c) u v)) : find id d' = some (afterFlush (stamped D c) u v) := by
  rw [find, users]
  exact find?_afterFlush found rfl rfl sameId sameLive

theorem flush_iff {r : User} (hu : u ∈ s.working.users.rows) : (flush D c u v).Succeeds s r t ↔
    r = afterFlush (stamped D c) u v ∧ (v ≠ u → ∃ d, Db.putUser D.engine (stamped D c v) s.working = .ok d) ∧
      t = { s with working := { s.working with users := s.working.users.put r } } :=
  succeeds_flushed_row (f := fun users => { s.working with users := users }) hu rfl fun _ hd => (Db.putUser_ok hd).2

theorem succeeds_flush {r : User} (hu : u ∈ s.working.users.rows) (h : (flush D c u v).Succeeds s r t) :
    r = afterFlush (stamped D c) u v ∧ (v ≠ u → s.working.emailTaken (stamped D c v) = false) ∧
      t = { s with working := { s.working with users := s.working.users.put r } } := by
  obtain ⟨hr, hput, ht⟩ := (flush_iff hu).mp h
  refine ⟨hr, fun hne => ?_, ht⟩
  obtain ⟨d', hd⟩ := hput hne
  exact (Db.putUser_ok hd).1

instance : Tx.ReadOnly (get id) := by unfold get; infer_instance
instance : Tx.ReadOnly (getByEmail D email) := by unfold getByEmail; infer_instance
instance {insert : User → Db → Except Raised Db} : Tx.Contained (addWith insert u) := by unfold addWith; infer_instance
instance {put : User → Db → Except Raised Db} : Tx.Contained (flushWith D c put u v) := by unfold flushWith; infer_instance
instance {put : User → Db → Except Raised Db} : Tx.Contained (deleteWith D c put u) := by unfold deleteWith; infer_instance

end UserRepository

namespace UserUpdate

variable {p : UserUpdate}

/-- The row `setattrs` leaves. -/
def applied (p : UserUpdate) (u : User) : User := { u with
  email := p.email.assignNotNull u.email
  fullName := p.fullName.assignNotNull u.fullName
  isActive := p.isActive.assignNotNull u.isActive }

theorem setattrs_eq_ok : p.setattrs u = .ok v ↔ (p.email ≠ .null ∧ p.fullName ≠ .null ∧ p.isActive ≠ .null) ∧ v = p.applied u := by
  simp only [setattrs, Field.isNull_eq_true]
  split
  · next hnull => simp only [reduceCtorEq, false_iff]; tauto
  · next hnull => simp only [Except.ok.injEq]; tauto

theorem setattrs_error (h : ¬(p.email ≠ .null ∧ p.fullName ≠ .null ∧ p.isActive ≠ .null)) :
    p.setattrs u = .error .integrity := by
  simp only [setattrs, Field.isNull_eq_true]
  exact if_pos (by tauto)

theorem setattrs_keeps (h : p.setattrs u = .ok v) : v.id = u.id ∧ v.live = u.live ∧ v.role = u.role := by
  obtain ⟨-, rfl⟩ := setattrs_eq_ok.mp h
  exact ⟨rfl, rfl, rfl⟩

theorem setattrs_of_not_isSet (h : p.setattrs u = .ok v) (hs : ¬p.isActive.isSet = true) :
    v = { u with email := v.email, fullName := v.fullName } := by
  obtain ⟨-, rfl⟩ := setattrs_eq_ok.mp h
  cases hp : p.isActive with
  | unset => simp [applied, hp, Field.assignNotNull]
  | null => simp [hp, Field.isSet] at hs
  | value b => simp [hp, Field.isSet] at hs

end UserUpdate

namespace UserService

variable {actor : User}

/-- The duplicate check, passed: an email that is sent and differs belongs to no live user. -/
def EmailFree (D : Deployment) (d : Db) (p : UserUpdate) (u : User) : Prop :=
  ∀ e, p.email = .value e → e ≠ u.email → UserRepository.oneWithEmail D e d = .ok none

@[simp] theorem succeeds_checkEmail {p : UserUpdate} {r : Unit} :
    (checkEmail D p.email u).Succeeds s r t ↔ EmailFree D s.working p u ∧ t = s := by
  unfold EmailFree
  cases he : p.email with
  | unset => simp [checkEmail]
  | null => simp [checkEmail]
  | value e =>
    by_cases h : e = u.email
    · simp [checkEmail, h]
    · simp only [checkEmail, h, if_false, Tx.succeeds_bind, UserRepository.succeeds_getByEmail,
        Tx.succeeds_refuseIf, Field.value.injEq, forall_eq', ne_eq, not_false_eq_true, forall_const]
      constructor
      · rintro ⟨o, _, ⟨ho, rfl⟩, hnone, rfl⟩
        cases o with
        | none => exact ⟨ho, rfl⟩
        | some x => simp at hnone
      · rintro ⟨hfree, rfl⟩
        exact ⟨none, t, ⟨hfree, rfl⟩, by simp, rfl⟩

instance {email : Field String} : Tx.ReadOnly (checkEmail D email u) := by
  cases email with
  | unset => unfold checkEmail; infer_instance
  | null => unfold checkEmail; infer_instance
  | value e => unfold checkEmail; infer_instance

instance {sorter : Sorter User} {params : PageParams} : Tx.ReadOnly (listUsersWith D sorter params) := by
  unfold listUsersWith; infer_instance
instance : Tx.ReadOnly (getUser id actor) := by unfold getUser; infer_instance
instance {insert : User → Db → Except Raised Db} {p : UserCreate} : Tx.Contained (createUserWith D c insert p) := by
  unfold createUserWith; infer_instance
instance {put : User → Db → Except Raised Db} {p : UserUpdate} : Tx.Contained (updateUserWith D c put id p actor) := by
  unfold updateUserWith; infer_instance
instance {put : User → Db → Except Raised Db} {p : UserRoleUpdate} : Tx.Contained (updateRoleWith D c put id p) := by
  unfold updateRoleWith; infer_instance
instance {put : User → Db → Except Raised Db} : Tx.Contained (deleteUserWith D c put id actor) := by
  unfold deleteUserWith; infer_instance

end UserService

end Specs

end ProjectManagement
