import ProjectManagement.System

/-!
The email addresses of the accounts. A service looks an address up before it writes it, and the partial unique index
`uq_users_email_active` would catch what slips through. Here the index is a switch: the services keep the addresses of live
accounts apart without it.
-/

namespace ProjectManagement

open Library

namespace Indexed

/-! Every statement and every route that writes accounts, the index on or off. -/

section Handlers

variable (indexed : Bool) (D : Deployment) (c : Call)

def insertUser (u : User) (d : Db) : Except Raised Db :=
  checked
    [(unstorable D.engine [u.email, u.fullName] [], .unexpected), (indexed && d.emailTaken u, .integrity)]
    ((d.users.insert? u).map fun t => { d with users := t })

def putUser (u : User) (d : Db) : Except Raised Db :=
  checked
    [(unstorable D.engine [u.email, u.fullName] [], .unexpected), (indexed && d.emailTaken u, .integrity)]
    (some { d with users := d.users.put u })

def handle : Request → App ApiResponse
  | .register p => Routes.registerWith D c (insertUser indexed D) p
  | .changePassword p => Routes.changePasswordWith D c (putUser indexed D) p
  | .createUser p => Routes.createUserWith D c (insertUser indexed D) p
  | .updateUser userId p => Routes.updateUserWith D c (putUser indexed D) userId p
  | .updateRole userId p => Routes.updateRoleWith D c (putUser indexed D) userId p
  | .deleteUser userId => Routes.deleteUserWith D c (putUser indexed D) userId
  | r => ProjectManagement.handle D c r

def writesUsers : Request → Bool
  | .register _ | .createUser _ | .updateUser .. | .updateRole .. | .deleteUser _ | .changePassword _ => true
  | _ => false

def step (i : Input) (w : World) : Outcome × World := (handle indexed D i.call i.request).run w

def nextWorld : Event → World → World
  | .request i, w => (step indexed D i w).2
  | .seedAdmin c email password fullName, w => ((seedAdminWith D c (insertUser indexed D) email password fullName).run w).2

def playFrom (w : World) (es : List Event) : World := es.foldl (fun w e => nextWorld indexed D e w) w

def emailTaken : Raised := .app (conflictError "Email already registered" .duplicateEmail)

/-- The body `register` and `create_user` have in common. -/
def enrol (email password fullName : String) (role : UserRole) : App User := do
  enforcePasswordPolicy D password
  let existing ← UserRepository.getByEmail D email
  Tx.refuseIf (existing.isSome = true) emailTaken
  let hashed ← hashPassword D c password
  let user := newUser D c email hashed fullName role
  UserRepository.addWith (insertUser indexed D) user
  pure user

theorem registerWith_eq {p : UserRegister} :
    AuthService.registerWith D c (insertUser indexed D) p = enrol indexed D c p.email p.password p.fullName .employee := rfl

theorem createUserWith_eq {p : UserCreate} :
    UserService.createUserWith D c (insertUser indexed D) p = enrol indexed D c p.email p.password p.fullName p.role := rfl

end Handlers

/-! With the index on it is the system as it stands. -/

theorem step_true {D : Deployment} {i : Input} {w : World} : step true D i w = ProjectManagement.step D i w := by
  obtain ⟨c, r⟩ := i
  cases r <;> rfl

theorem nextWorld_true {D : Deployment} {e : Event} {w : World} :
    nextWorld true D e w = ProjectManagement.nextWorld D e w := by
  cases e with
  | request i => exact congrArg Prod.snd step_true
  | seedAdmin c email password fullName => rfl

theorem playFrom_true {D : Deployment} {es : List Event} {w : World} :
    playFrom true D w es = ProjectManagement.playFrom D w es := by
  induction es generalizing w with
  | nil => rfl
  | cons e es ih => exact ih.trans (congrArg (fun w => ProjectManagement.playFrom D w es) nextWorld_true)

section Specs

variable {indexed : Bool} {D : Deployment} {c : Call} {e : Engine} {s t : Session Db Blobs} {d d' : Db} {u v r : User}
  {email password fullName : String} {role : UserRole} {w : World}

def Fits (D : Deployment) (u : User) : Prop := unstorable D.engine [u.email, u.fullName] [] = false

theorem insertUser_eq_ok : insertUser indexed D u d = .ok d' ↔
    (Fits D u ∧ (indexed && d.emailTaken u) = false) ∧
      ∃ t, d.users.insert? u = some t ∧ { d with users := t } = d' := by
  simp only [insertUser, Fits, checked_eq_ok, List.forall_mem_cons, Option.map_eq_some_iff, List.not_mem_nil, false_imp_iff,
    implies_true, and_true]

theorem putUser_eq_ok : putUser indexed D u d = .ok d' ↔
    (Fits D u ∧ (indexed && d.emailTaken u) = false) ∧
      { d with users := d.users.put u } = d' := by
  simp only [putUser, Fits, checked_eq_ok, List.forall_mem_cons, Option.some.injEq, List.not_mem_nil, false_imp_iff,
    implies_true, and_true]

theorem succeeds_flush : (UserRepository.flushWith D c (putUser indexed D) u v).Succeeds s r t ↔ (v = u ∧ r = u ∧ t = s) ∨
    (v ≠ u ∧ r = UserRepository.stamped D c v ∧ ∃ d, putUser indexed D (UserRepository.stamped D c v) s.working = .ok d ∧
      t = { s with working := d }) :=
  succeeds_flushed

theorem succeeds_enrol : (enrol indexed D c email password fullName role).Succeeds s r t ↔
    passwordProblems D password = [] ∧ UserRepository.oneWithEmail D email s.working = .ok none ∧
      ∃ hashed, D.bcrypt.hashpw password.toUTF8 c.fresh.salt = some hashed ∧
        r = newUser D c email hashed fullName role ∧
        ∃ d, insertUser indexed D (newUser D c email hashed fullName role) s.working = .ok d ∧
          t = { s with working := d } := by
  simp only [enrol, Tx.succeeds_bind, succeeds_enforcePasswordPolicy, UserRepository.succeeds_getByEmail, Tx.succeeds_refuseIf,
    Bool.not_eq_true, Option.isSome_eq_false_iff, Option.isNone_iff_eq_none, succeeds_hashPassword,
    UserRepository.succeeds_addWith, Tx.succeeds_pure]
  constructor
  · rintro ⟨_, _, ⟨policy, rfl⟩, o, _, ⟨free, rfl⟩, _, _, ⟨rfl, rfl⟩, hashed, _, ⟨hash, rfl⟩, _, _, ⟨d, stored, rfl⟩, rfl, rfl⟩
    exact ⟨policy, free, hashed, hash, rfl, d, stored, rfl⟩
  · rintro ⟨policy, free, hashed, hash, rfl, d, stored, rfl⟩
    exact ⟨(), s, ⟨policy, rfl⟩, none, s, ⟨free, rfl⟩, (), s, ⟨rfl, rfl⟩, hashed, s, ⟨hash, rfl⟩, (), _,
      ⟨d, stored, rfl⟩, rfl, rfl⟩

def Free (email : String) (t : Table User) : Prop := ∀ u ∈ t.rows, u.live = true → u.email ≠ email

theorem withEmail_eq_nil : UserRepository.withEmail email d = [] ↔ Free email d.users := by
  simp only [UserRepository.withEmail, List.filter_eq_nil_iff, Bool.and_eq_true, beq_iff_eq, not_and, Free, ne_eq]

theorem setattrs_free {p : UserUpdate} (sent : p.setattrs u = .ok v) (free : UserService.EmailFree D d p u)
    (hne : v.email ≠ u.email) : Free v.email d.users := by
  obtain ⟨-, rfl⟩ := UserUpdate.setattrs_eq_ok.mp sent
  cases he : p.email with
  | unset => simp [UserUpdate.applied, he, Field.assignNotNull] at hne
  | null => simp [UserUpdate.applied, he, Field.assignNotNull] at hne
  | value email =>
    simp only [UserUpdate.applied, he, Field.assignNotNull] at hne ⊢
    exact withEmail_eq_nil.mp (UserRepository.oneWithEmail_none.mp (free email he hne)).2

/-- What one event may do to the accounts: before either write the address is free. -/
inductive Wrote (D : Deployment) (t : Table User) : Table User → Prop
  | unchanged : Wrote D t t
  | added {t' : Table User} {u : User} (free : Free u.email t) (fits : Fits D u) (rows : t'.rows = t.rows ++ [u]) : Wrote D t t'
  | changed {u v : User} (found : u ∈ t.rows) (live : u.live = true) (id : v.id = u.id) (fits : Fits D v)
      (free : v.email ≠ u.email → Free v.email t) : Wrote D t (t.put v)

theorem Wrote.enrol (h : (enrol indexed D c email password fullName role).Succeeds s r t) :
    Wrote D s.working.users t.working.users := by
  obtain ⟨-, free, hashed, -, -, d', stored, rfl⟩ := succeeds_enrol.mp h
  obtain ⟨⟨fits, -⟩, users, hinsert, rfl⟩ := insertUser_eq_ok.mp stored
  exact .added (withEmail_eq_nil.mp (UserRepository.oneWithEmail_none.mp free).2) fits (Table.insert?_eq_some.mp hinsert).2

theorem Wrote.flush (h : (UserRepository.flushWith D c (putUser indexed D) u v).Succeeds s r t)
    (found : u ∈ s.working.users.rows) (live : u.live = true)
    (id : v.id = u.id) (free : v.email ≠ u.email → Free v.email s.working.users) :
    Wrote D s.working.users t.working.users := by
  rcases succeeds_flush.mp h with ⟨-, -, rfl⟩ | ⟨-, -, d', stored, rfl⟩
  · exact .unchanged
  · obtain ⟨⟨fits, -⟩, rfl⟩ := putUser_eq_ok.mp stored
    exact .changed found live id fits free

theorem Wrote.of_run {m : App ApiResponse} [Tx.Contained m]
    (h : ∀ a t, m.Succeeds ⟨w.1, w.1, w.2⟩ a t → Wrote D w.1.users t.working.users) : Wrote D w.1.users (m.run w).2.1.users := by
  rcases hr : m.run w with ⟨o, v⟩
  cases o with
  | error e =>
    rw [Tx.run_error hr]
    exact .unchanged
  | ok a =>
    obtain ⟨t, ht, rfl⟩ := Tx.run_ok.mp hr
    exact h a t ht

theorem handle_of_not_writesUsers {request : Request} (h : writesUsers request = false) :
    handle indexed D c request = ProjectManagement.handle D c request := by
  cases request with
  | register | createUser | updateUser | updateRole | deleteUser | changePassword => exact absurd h (by simp [writesUsers])
  | _ => rfl

theorem users_next {i : Input} (h : writesUsers i.request = false) : (next D i w).1.users = w.1.users := by
  have effect := step_effect D i w
  generalize outcome D i w = o at effect
  generalize next D i w = w' at effect
  cases effect with
  | registered | userCreated | userUpdated | roleUpdated | userDeleted | passwordChanged =>
    exact absurd h (by simp [writesUsers])
  | _ => rfl

theorem users_step {i : Input} (h : writesUsers i.request = false) : (step indexed D i w).2.1.users = w.1.users := by
  rw [step, handle_of_not_writesUsers h]
  exact users_next h

theorem step_wrote {i : Input} : Wrote D w.1.users (step indexed D i w).2.1.users := by
  obtain ⟨c, request⟩ := i
  cases request with
  | register p =>
    apply Wrote.of_run (m := Routes.registerWith D c (insertUser indexed D) p)
    intro a t h
    simp only [Routes.registerWith, registerWith_eq, Tx.succeeds_bind, succeeds_validated, Tx.succeeds_pure] at h
    obtain ⟨_, _, ⟨-, rfl⟩, u, _, h, -, rfl⟩ := h
    exact .enrol h
  | createUser p =>
    apply Wrote.of_run (m := Routes.createUserWith D c (insertUser indexed D) p)
    intro a t h
    simp only [Routes.createUserWith, createUserWith_eq, Tx.succeeds_bind, succeeds_getCurrentUser, succeeds_requireAdmin,
      succeeds_validated, Tx.succeeds_pure] at h
    obtain ⟨actor, _, ⟨-, rfl⟩, _, _, ⟨-, rfl⟩, _, _, ⟨-, rfl⟩, u, _, h, -, rfl⟩ := h
    exact .enrol h
  | updateUser id p =>
    apply Wrote.of_run (m := Routes.updateUserWith D c (putUser indexed D) id p)
    intro a t h
    simp only [Routes.updateUserWith, UserService.updateUserWith, Tx.succeeds_bind, succeeds_getCurrentUser,
      succeeds_validated, Tx.succeeds_refuseIf, UserRepository.succeeds_get, Tx.succeeds_orRaise,
      UserService.succeeds_checkEmail, Tx.succeeds_ofExcept, Tx.succeeds_pure] at h
    obtain ⟨actor, _, ⟨-, rfl⟩, _, _, ⟨-, rfl⟩, r, _, ⟨_, _, ⟨-, rfl⟩, _, _, ⟨rfl, rfl⟩, u, _, ⟨hu, rfl⟩, _, _, ⟨-, rfl⟩, _, _,
      ⟨free, rfl⟩, v, _, ⟨sent, rfl⟩, h⟩, -, rfl⟩ := h
    obtain ⟨found, live, -⟩ := UserRepository.find_eq_some.mp hu
    exact .flush h found live (UserUpdate.setattrs_keeps sent).1 (setattrs_free sent free)
  | updateRole id p =>
    apply Wrote.of_run (m := Routes.updateRoleWith D c (putUser indexed D) id p)
    intro a t h
    simp only [Routes.updateRoleWith, UserService.updateRoleWith, Tx.succeeds_bind, succeeds_getCurrentUser, succeeds_requireAdmin,
      UserRepository.succeeds_get, Tx.succeeds_orRaise, Tx.succeeds_pure] at h
    obtain ⟨actor, _, ⟨-, rfl⟩, _, _, ⟨-, rfl⟩, r, _, ⟨_, _, ⟨rfl, rfl⟩, u, _, ⟨hu, rfl⟩, h⟩, -, rfl⟩ := h
    obtain ⟨found, live, -⟩ := UserRepository.find_eq_some.mp hu
    exact .flush h found live rfl (fun hne => absurd rfl hne)
  | deleteUser id =>
    apply Wrote.of_run (m := Routes.deleteUserWith D c (putUser indexed D) id)
    intro a t h
    simp only [Routes.deleteUserWith, UserService.deleteUserWith, UserRepository.deleteWith, Tx.succeeds_bind,
      succeeds_getCurrentUser, succeeds_requireAdmin, Tx.succeeds_refuseIf, UserRepository.succeeds_get, Tx.succeeds_orRaise,
      Tx.succeeds_pure] at h
    obtain ⟨actor, _, ⟨-, rfl⟩, _, _, ⟨-, rfl⟩, _, _, ⟨_, _, ⟨-, rfl⟩, _, _, ⟨rfl, rfl⟩, u, _, ⟨hu, rfl⟩, r, _, h, -, rfl⟩, -,
      rfl⟩ := h
    obtain ⟨found, live, -⟩ := UserRepository.find_eq_some.mp hu
    exact .flush h found live rfl (fun hne => absurd rfl hne)
  | changePassword p =>
    apply Wrote.of_run (m := Routes.changePasswordWith D c (putUser indexed D) p)
    intro a t h
    simp only [Routes.changePasswordWith, AuthService.changePasswordWith, Tx.succeeds_bind, succeeds_getCurrentUser,
      succeeds_validated, Tx.succeeds_refuseIf, succeeds_enforcePasswordPolicy, succeeds_hashPassword,
      RefreshTokenRepository.succeeds_revokeAllForUser, Tx.succeeds_pure] at h
    obtain ⟨u, _, ⟨caller, rfl⟩, _, _, ⟨-, rfl⟩, _, _, ⟨_, _, ⟨-, rfl⟩, _, _, ⟨-, rfl⟩, _, _, ⟨-, rfl⟩, _, _, rfl, r, _, h, -, rfl⟩,
      -, rfl⟩ := h
    obtain ⟨found, live, -⟩ := UserRepository.find_eq_some.mp caller.found
    exact .flush h found live rfl (fun hne => absurd rfl hne)
  | _ =>
    rw [users_step rfl]
    exact .unchanged

theorem seedAdmin_wrote :
    Wrote D w.1.users ((seedAdminWith D c (insertUser indexed D) email password fullName).run w).2.1.users := by
  rcases seedAdminWith_next (D := D) (w := w) (insertUser indexed D) c email password fullName with
    h | ⟨hashed, d, free, -, stored, h⟩
  · rw [h]
    exact .unchanged
  · rw [h]
    obtain ⟨⟨fits, -⟩, users, hinsert, rfl⟩ := insertUser_eq_ok.mp stored
    exact .added (withEmail_eq_nil.mp free) fits (Table.insert?_eq_some.mp hinsert).2

theorem nextWorld_wrote {event : Event} : Wrote D w.1.users (nextWorld indexed D event w).1.users := by
  cases event with
  | request i => exact step_wrote
  | seedAdmin c email password fullName => exact seedAdmin_wrote

theorem holdsNul_of_fits (fits : unstorable D.engine [email] [] = false) : holdsNul D.engine [email] = false := by
  simpa using (unstorable_eq_false.mp fits).2

theorem oneWithEmail_of_free (fits : unstorable D.engine [email] [] = false) (free : Free email d.users) :
    UserRepository.oneWithEmail D email d = .ok none :=
  UserRepository.oneWithEmail_none.mpr ⟨holdsNul_of_fits fits, withEmail_eq_nil.mpr free⟩

/-! The invariant: live addresses are pairwise distinct, and every row has passed the checks on its texts. -/

structure Sound (D : Deployment) (t : Table User) : Prop where
  distinct : t.Identifies User.live User.email
  fits : ∀ u ∈ t.rows, Fits D u

theorem Wrote.sound {t t' : Table User} (h : Wrote D t t') (sound : Sound D t) : Sound D t' := by
  cases h with
  | unchanged => exact sound
  | @added _ u free fits rows =>
    refine ⟨sound.distinct.append rows free, fun v hv => ?_⟩
    rw [rows, List.mem_append, List.mem_singleton] at hv
    rcases hv with hv | rfl
    · exact sound.fits v hv
    · exact fits
  | @changed u v found live id fits free =>
    refine ⟨sound.distinct.put fun _ x hx hlive hid => ?_, fun x hx => ?_⟩
    · by_cases hemail : v.email = u.email
      · -- the address is the account's own: no other live account has it
        intro heq
        have hxu := sound.distinct x hx hlive u found live (heq.trans hemail)
        exact hid ((congrArg User.id hxu).trans id.symm)
      · exact free hemail x hx hlive
    · rcases Table.of_mem_put hx with rfl | ⟨hx, -⟩
      · exact fits
      · exact sound.fits x hx

theorem sound_initial : Sound D World.initial.1.users := by
  constructor
  · intro u hu
    exact absurd hu (by simp [World.initial, Db.empty, Table.empty])
  · intro u hu
    exact absurd hu (by simp [World.initial, Db.empty, Table.empty])

theorem Sound.playFrom {es : List Event} (sound : Sound D w.1.users) : Sound D (playFrom indexed D w es).1.users := by
  induction es generalizing w with
  | nil => exact sound
  | cons e es ih => exact ih (nextWorld_wrote.sound sound)

theorem Sound.withEmail (sound : Sound D d.users) (found : u ∈ d.users.rows) (live : u.live = true) :
    UserRepository.withEmail u.email d = [u] :=
  sound.distinct.filter_eq_singleton found live

theorem Sound.withEmail_cases (sound : Sound D d.users) (email : String) :
    Free email d.users ∨ ∃ u, UserRepository.oneWithEmail D email d = .ok (some u) := by
  cases h : UserRepository.withEmail email d with
  | nil => exact Or.inl (withEmail_eq_nil.mp h)
  | cons u us =>
    have hu : u ∈ UserRepository.withEmail email d := by simp [h]
    rw [UserRepository.withEmail, List.mem_filter, Bool.and_eq_true, beq_iff_eq] at hu
    obtain ⟨found, live, rfl⟩ := hu
    exact Or.inr ⟨u, UserRepository.oneWithEmail_some.mpr ⟨holdsNul_of_fits (unstorable_cons.mp (sound.fits u found)).1,
      sound.withEmail found live⟩⟩

/-! Requests for an address. -/

/-- A request that gives an account an address it does not have, with every other check of its service passed. -/
inductive Asks (D : Deployment) (d : Db) (email : String) : Input → Prop
  | register {c : Call} {p : UserRegister} (sent : p.email = email) (errors : p.errors = [])
      (policy : passwordProblems D p.password = []) : Asks D d email ⟨c, .register p⟩
  | create {c : Call} {p : UserCreate} {actor : User} (caller : CurrentUser c d actor) (admin : actor.role = .admin)
      (sent : p.email = email) (errors : p.errors = []) (policy : passwordProblems D p.password = []) :
      Asks D d email ⟨c, .createUser p⟩
  | update {c : Call} {id : Uuid} {p : UserUpdate} {actor u : User} (caller : CurrentUser c d actor) (errors : p.errors = [])
      (allowed : actor.role = .admin ∨ actor.id = id) (found : UserRepository.find id d = some u)
      (status : p.isActive.isSet = true → actor.role = .admin) (sent : p.email = .value email) (differs : email ≠ u.email) :
      Asks D d email ⟨c, .updateUser id p⟩

/-- What bcrypt and the schema ask of such a request. -/
inductive Storable (D : Deployment) (d : Db) : Input → Prop
  | register {c : Call} {p : UserRegister} {hashed : String}
      (hash : D.bcrypt.hashpw p.password.toUTF8 c.fresh.salt = some hashed) (new : ∀ u ∈ d.users.rows, u.id ≠ c.fresh.id)
      (text : holdsNul D.engine [p.fullName] = false) : Storable D d ⟨c, .register p⟩
  | create {c : Call} {p : UserCreate} {hashed : String}
      (hash : D.bcrypt.hashpw p.password.toUTF8 c.fresh.salt = some hashed) (new : ∀ u ∈ d.users.rows, u.id ≠ c.fresh.id)
      (text : holdsNul D.engine [p.fullName] = false) : Storable D d ⟨c, .createUser p⟩
  | update {c : Call} {id : Uuid} {p : UserUpdate} (fullName : p.fullName.isNull = false) (isActive : p.isActive.isNull = false)
      (text : holdsNul D.engine p.fullName.sent.toList = false) : Storable D d ⟨c, .updateUser id p⟩

theorem not_emailTaken (free : Free u.email d.users) : d.emailTaken u = false := by
  simp only [Db.emailTaken, Bool.and_eq_false_iff, List.any_eq_false]
  refine Or.inr fun v hv => ?_
  cases hl : v.live with
  | false => simp
  | true => simp [free v hv hl]

/-! The rejection. -/

theorem raises_enrol (policy : passwordProblems D password = [])
    (taken : UserRepository.oneWithEmail D email s.working = .ok (some u)) :
    (enrol indexed D c email password fullName role).Raises s emailTaken s := by
  refine Tx.Succeeds.bind_raises (a := ()) (succeeds_enforcePasswordPolicy.mpr ⟨policy, rfl⟩) ?_
  refine (UserRepository.succeeds_getByEmail.mpr ⟨taken, rfl⟩).bind_raises ?_
  exact (Tx.raises_refuseIf rfl).bind

theorem raises_checkEmail (differs : email ≠ u.email) (taken : UserRepository.oneWithEmail D email s.working = .ok (some v)) :
    (UserService.checkEmail D (.value email) u).Raises s emailTaken s := by
  rw [UserService.checkEmail, if_neg differs]
  refine (UserRepository.succeeds_getByEmail.mpr ⟨taken, rfl⟩).bind_raises ?_
  exact Tx.raises_refuseIf rfl

theorem Asks.rejected {b : Blobs} {i : Input} (h : Asks D d email i)
    (taken : UserRepository.oneWithEmail D email d = .ok (some v)) :
    step indexed D i (d, b) = (.error emailTaken, (d, b)) := by
  suffices raises : (handle indexed D i.call i.request).Raises ⟨d, d, b⟩ emailTaken ⟨d, d, b⟩ from Tx.run_of_raises raises
  cases h with
  | register sent errors policy =>
    subst sent
    refine Tx.Succeeds.bind_raises (a := ()) (succeeds_validated.mpr ⟨errors, rfl⟩) ?_
    exact (raises_enrol policy taken).bind
  | create caller admin sent errors policy =>
    subst sent
    refine (succeeds_getCurrentUser.mpr ⟨caller, rfl⟩).bind_raises ?_
    refine Tx.Succeeds.bind_raises (a := ()) (succeeds_requireAdmin.mpr ⟨admin, rfl⟩) ?_
    refine Tx.Succeeds.bind_raises (a := ()) (succeeds_validated.mpr ⟨errors, rfl⟩) ?_
    exact (raises_enrol policy taken).bind
  | @update c id p actor u caller errors allowed found status sent differs =>
    refine (succeeds_getCurrentUser.mpr ⟨caller, rfl⟩).bind_raises ?_
    refine Tx.Succeeds.bind_raises (a := ()) (succeeds_validated.mpr ⟨errors, rfl⟩) ?_
    apply Tx.Raises.bind
    refine Tx.Succeeds.bind_raises (a := ()) (Tx.succeeds_refuseIf.mpr ⟨by simpa [or_iff_not_imp_left] using allowed, rfl⟩) ?_
    refine (UserRepository.succeeds_get.mpr ⟨found.symm, rfl⟩).bind_raises ?_
    refine (Tx.succeeds_orRaise.mpr ⟨rfl, rfl⟩).bind_raises ?_
    refine Tx.Succeeds.bind_raises (a := ()) (Tx.succeeds_refuseIf.mpr ⟨by simpa using status, rfl⟩) ?_
    rw [sent]
    exact (raises_checkEmail differs taken).bind

/-! The acceptance. -/

def Taken (email : String) (r : Outcome × World) : Prop :=
  (∃ a, r.1 = .ok a) ∧ ∃ u, UserRepository.withEmail email r.2.1 = [u]

theorem insertUser_of_free (new : ∀ v ∈ d.users.rows, v.id ≠ u.id) (fits : Fits D u) (free : Free u.email d.users) :
    ∃ t : Table User, t.rows = d.users.rows ++ [u] ∧ insertUser indexed D u d = .ok { d with users := t } := by
  obtain ⟨t, hinsert, rows⟩ := Table.insert?_of_new new
  exact ⟨t, rows, insertUser_eq_ok.mpr ⟨⟨fits, by simp [not_emailTaken free]⟩, t, hinsert, rfl⟩⟩

def Enrols (indexed : Bool) (D : Deployment) (c : Call) (email password fullName : String) (role : UserRole) (hashed : String)
    (s : Session Db Blobs) : Prop :=
  ∃ d, (enrol indexed D c email password fullName role).Succeeds s (newUser D c email hashed fullName role)
    { s with working := d } ∧ newUser D c email hashed fullName role ∈ d.users.rows

theorem enrol_of_free {hashed : String} (policy : passwordProblems D password = []) (free : Free email s.working.users)
    (hash : D.bcrypt.hashpw password.toUTF8 c.fresh.salt = some hashed)
    (new : ∀ v ∈ s.working.users.rows, v.id ≠ c.fresh.id)
    (fits : Fits D (newUser D c email hashed fullName role)) :
    Enrols indexed D c email password fullName role hashed s := by
  have hinsert : ∃ t : Table User, t.rows = s.working.users.rows ++ [newUser D c email hashed fullName role] ∧
      insertUser indexed D (newUser D c email hashed fullName role) s.working = .ok { s.working with users := t } :=
    insertUser_of_free new fits free
  obtain ⟨t, rows, stored⟩ := hinsert
  refine ⟨{ s.working with users := t }, ?_, ?_⟩
  · exact succeeds_enrol.mpr ⟨policy, oneWithEmail_of_free (unstorable_cons.mp fits).1 free, hashed, hash, rfl, _, stored, rfl⟩
  · rw [rows]
    exact List.mem_append_right _ (List.mem_singleton_self _)

theorem setattrs_of_value {p : UserUpdate} (sent : p.email = .value email) (fullName : p.fullName.isNull = false)
    (isActive : p.isActive.isNull = false) (text : holdsNul D.engine p.fullName.sent.toList = false) (errors : p.errors = [])
    (hu : Fits D u) (fits : unstorable D.engine [email] [] = false) :
    ∃ v, p.setattrs u = .ok v ∧ v.email = email ∧ v.id = u.id ∧ v.live = u.live ∧ Fits D v := by
  refine ⟨_, if_neg (by simp [sent, fullName, isActive, show (Field.value email).isNull = false from rfl]),
    by simp [sent, Field.assignNotNull], rfl, rfl, ?_⟩
  rw [Fits, unstorable_cons]
  refine ⟨by simpa [sent, Field.assignNotNull] using fits, ?_⟩
  cases hname : p.fullName with
  | unset => exact (unstorable_cons.mp hu).2
  | null => simp [hname, Field.isNull] at fullName
  | value name =>
    rw [UserUpdate.errors, hname] at errors
    rw [hname] at text
    exact unstorable_of_le (stringLength_eq_nil.mp errors).2 text

theorem updateUser_of_free {id : Uuid} {p : UserUpdate} {actor : User} {b : Blobs} (sound : Sound D d.users)
    (allowed : actor.role = .admin ∨ actor.id = id) (found : UserRepository.find id d = some u)
    (status : p.isActive.isSet = true → actor.role = .admin) (sent : p.email = .value email) (differs : email ≠ u.email)
    (fullName : p.fullName.isNull = false) (isActive : p.isActive.isNull = false)
    (text : holdsNul D.engine p.fullName.sent.toList = false) (errors : p.errors = [])
    (fits : unstorable D.engine [email] [] = false) (free : Free email d.users) :
    ∃ v d', (UserService.updateUserWith D c (putUser indexed D) id p actor).Succeeds ⟨d, d, b⟩ v ⟨d, d', b⟩ ∧ v ∈ d'.users.rows ∧
      v.live = true ∧ v.email = email := by
  obtain ⟨hu, live, rfl⟩ := UserRepository.find_eq_some.mp found
  obtain ⟨v, hsent, rfl, hid, hlive, hfits⟩ := setattrs_of_value sent fullName isActive text errors (sound.fits u hu) fits
  have hne : v ≠ u := fun heq => differs (congrArg User.email heq)
  have hstored : putUser indexed D (UserRepository.stamped D c v) d =
      .ok { d with users := d.users.put (UserRepository.stamped D c v) } :=
    putUser_eq_ok.mpr ⟨⟨hfits, by simp [not_emailTaken (u := UserRepository.stamped D c v) free]⟩, rfl⟩
  have hfree : UserService.EmailFree D d p u := by
    intro email hemail _
    obtain rfl := Field.value.inj (sent.symm.trans hemail)
    exact oneWithEmail_of_free fits free
  refine ⟨UserRepository.stamped D c v, { d with users := d.users.put (UserRepository.stamped D c v) }, ?_,
    Table.mem_put_self hu hid.symm, hlive.trans live, rfl⟩
  simp only [UserService.updateUserWith, Tx.succeeds_bind, Tx.succeeds_refuseIf, UserRepository.succeeds_get, Tx.succeeds_orRaise,
    UserService.succeeds_checkEmail, Tx.succeeds_ofExcept]
  exact ⟨(), _, ⟨by simpa [or_iff_not_imp_left] using allowed, rfl⟩, _, _, ⟨rfl, rfl⟩, u, _, ⟨found, rfl⟩, (), _,
    ⟨by simpa using status, rfl⟩, (), _, ⟨hfree, rfl⟩, v, _, ⟨hsent, rfl⟩,
    succeeds_flush.mpr (Or.inr ⟨hne, rfl, _, hstored, rfl⟩)⟩

theorem Asks.accepted {b : Blobs} {i : Input} (h : Asks D d email i) (stores : Storable D d i) (sound : Sound D d.users)
    (fits : unstorable D.engine [email] [] = false) (free : Free email d.users) : Taken email (step indexed D i (d, b)) := by
  suffices succeeds : ∃ d', (∃ a, (handle indexed D i.call i.request).Succeeds ⟨d, d, b⟩ a ⟨d, d', b⟩) ∧
      ∃ u ∈ d'.users.rows, u.live = true ∧ u.email = email by
    obtain ⟨d', ⟨a, hsucceeds⟩, u, found, live, rfl⟩ := succeeds
    have hstep : step indexed D i (d, b) = (.ok a, d', b) := Tx.run_of_succeeds hsucceeds
    have hwrote : Wrote D d.users (step indexed D i (d, b)).2.1.users := step_wrote (w := (d, b))
    have hsound := hwrote.sound sound
    rw [hstep] at hsound ⊢
    exact ⟨⟨a, rfl⟩, u, hsound.withEmail found live⟩
  cases h with
  | @register c p sent errors policy =>
    subst sent
    cases stores with
    | @register _ _ hashed hash new text =>
      have hname : unstorable D.engine [p.fullName] [] = false :=
        unstorable_of_le (stringLength_eq_nil.mp (List.append_eq_nil_iff.mp errors).2).2 text
      have henrol : Enrols indexed D c p.email p.password p.fullName .employee hashed ⟨d, d, b⟩ :=
        enrol_of_free policy free hash new (unstorable_cons.mpr ⟨fits, hname⟩)
      obtain ⟨d', henrol, hmem⟩ := henrol
      refine ⟨d', ?_, _, hmem, rfl, rfl⟩
      exact ⟨_, Tx.Succeeds.seq (succeeds_validated.mpr ⟨errors, rfl⟩) (henrol.bind (Tx.succeeds_pure.mpr ⟨rfl, rfl⟩))⟩
  | @create c p actor caller admin sent errors policy =>
    subst sent
    cases stores with
    | @create _ _ hashed hash new text =>
      have hname : unstorable D.engine [p.fullName] [] = false :=
        unstorable_of_le (stringLength_eq_nil.mp (List.append_eq_nil_iff.mp errors).2).2 text
      have henrol : Enrols indexed D c p.email p.password p.fullName p.role hashed ⟨d, d, b⟩ :=
        enrol_of_free policy free hash new (unstorable_cons.mpr ⟨fits, hname⟩)
      obtain ⟨d', henrol, hmem⟩ := henrol
      refine ⟨d', ?_, _, hmem, rfl, rfl⟩
      exact ⟨_, (succeeds_getCurrentUser.mpr ⟨caller, rfl⟩).bind
        (Tx.Succeeds.seq (succeeds_requireAdmin.mpr ⟨admin, rfl⟩)
        (Tx.Succeeds.seq (succeeds_validated.mpr ⟨errors, rfl⟩)
        (henrol.bind (Tx.succeeds_pure.mpr ⟨rfl, rfl⟩))))⟩
  | @update c id p actor u caller errors allowed found status sent differs =>
    cases stores with
    | @update _ _ _ fullName isActive text =>
      have hupdate := @updateUser_of_free indexed D c d u email id p actor b sound allowed found status sent differs fullName
        isActive text errors fits free
      obtain ⟨v, d', hupdate, hmem, hlive, hemail⟩ := hupdate
      refine ⟨d', ?_, v, hmem, hlive, hemail⟩
      exact ⟨_, (succeeds_getCurrentUser.mpr ⟨caller, rfl⟩).bind
        (Tx.Succeeds.seq (succeeds_validated.mpr ⟨errors, rfl⟩)
        (hupdate.bind (Tx.succeeds_pure.mpr ⟨rfl, rfl⟩)))⟩

/-! An address that is given up. -/

def Released (email : String) (t t' : Table User) : Prop :=
  ∃ u ∈ t.rows, u.live = true ∧ u.email = email ∧ ∀ v ∈ t'.rows, v.id = u.id → v.live = true → v.email ≠ email

theorem Wrote.free_of_released {t t' : Table User} (h : Wrote D t t') (sound : Sound D t) (released : Released email t t') :
    Free email t' := by
  obtain ⟨u, hu, live, rfl, gone⟩ := released
  have hmoved : u ∉ t'.rows := fun hmem => gone u hmem rfl live rfl
  cases h with
  | unchanged => exact absurd hu hmoved
  | added free fits rows =>
    rw [rows] at hmoved
    exact absurd (List.mem_append_left _ hu) hmoved
  | @changed r v found hr id fits free =>
    -- only the row the event writes can have been given up
    have hid : u.id = v.id := by
      by_contra hne
      exact hmoved (Table.mem_put.mpr (Or.inl ⟨hu, hne⟩))
    intro x hx hlive hemail
    rcases Table.of_mem_put hx with rfl | ⟨hx', hne⟩
    · exact gone x hx hid.symm hlive hemail
    · have hxu := sound.distinct x hx' hlive u hu live hemail
      exact hne ((congrArg User.id hxu).trans hid)

/-- The addresses of one state: distinct, guarded against a second holder, open again once given up. -/
structure Guarded (indexed : Bool) (D : Deployment) (w : World) : Prop where
  distinct : ((w.1.users.rows.filter User.live).map User.email).Nodup
  lookup : ∀ email, ∃ o, scalarOneOrNone (UserRepository.withEmail email w.1) = .ok o
  rejects : ∀ email i, Asks D w.1 email i → ¬Free email w.1.users → step indexed D i w = (.error emailTaken, w)
  accepts : ∀ email i, Asks D w.1 email i → Free email w.1.users → Storable D w.1 i → unstorable D.engine [email] [] = false →
    Taken email (step indexed D i w)
  reuse : ∀ email event i, Released email w.1.users (nextWorld indexed D event w).1.users →
    Asks D (nextWorld indexed D event w).1 email i → Storable D (nextWorld indexed D event w).1 i →
      Taken email (step indexed D i (nextWorld indexed D event w))

theorem Sound.guarded (sound : Sound D w.1.users) : Guarded indexed D w where
  distinct := Table.identifies_iff_nodup.mp sound.distinct
  lookup := by
    intro email
    rcases sound.withEmail_cases email with hfree | ⟨u, hu⟩
    · exact ⟨none, scalarOneOrNone_none.mpr (withEmail_eq_nil.mpr hfree)⟩
    · exact ⟨some u, (UserRepository.oneWithEmail_eq_ok.mp hu).2⟩
  rejects := by
    intro email i asks taken
    rcases sound.withEmail_cases email with hfree | ⟨u, hu⟩
    · exact absurd hfree taken
    · exact asks.rejected hu
  accepts := by
    intro email i asks free stores fits
    exact asks.accepted stores sound fits free
  reuse := by
    intro email event i released asks stores
    have hwrote : Wrote D w.1.users (nextWorld indexed D event w).1.users := nextWorld_wrote
    have hfree := hwrote.free_of_released sound released
    obtain ⟨u, hu, -, rfl, -⟩ := released
    exact asks.accepted stores (hwrote.sound sound) (unstorable_cons.mp (sound.fits u hu)).1 hfree

end Specs

/-- Every run of the system keeps the addresses apart, the index on or off; with the index on it is the system as it
stands. -/
theorem live_emails_guarded (D : Deployment) (es : List Event) :
    (∀ indexed, Guarded indexed D (playFrom indexed D World.initial es)) ∧
      (∀ event w, nextWorld true D event w = ProjectManagement.nextWorld D event w) ∧
        ∀ i w, step true D i w = ProjectManagement.step D i w :=
  ⟨fun _ => sound_initial.playFrom.guarded, fun _ _ => nextWorld_true, fun _ _ => step_true⟩

theorem live_emails_guarded_sample :
    step false .sample ⟨Call.sample 5 none, .register ⟨"a@b.c", "Passw0rd", "A"⟩⟩
        (playFrom false .sample World.initial (oneTask ++ sampleRequests 4 [(none, .register ⟨"a@b.c", "Passw0rd", "A"⟩)])) =
      (.error emailTaken,
        playFrom false .sample World.initial (oneTask ++ sampleRequests 4 [(none, .register ⟨"a@b.c", "Passw0rd", "A"⟩)])) ∧
      Taken "a@b.c" (step false .sample ⟨Call.sample 6 none, .register ⟨"a@b.c", "Passw0rd", "A"⟩⟩
        (nextWorld false .sample (.request ⟨Call.sample 5 (some 16), .deleteUser 64⟩)
          (playFrom false .sample World.initial (oneTask ++ sampleRequests 4 [(none, .register ⟨"a@b.c", "Passw0rd", "A"⟩)])))) := by
  have guarded := (live_emails_guarded .sample
    (oneTask ++ sampleRequests 4 [(none, .register ⟨"a@b.c", "Passw0rd", "A"⟩)])).1 false
  refine ⟨guarded.rejects "a@b.c" _ (.register rfl (by decide) (by decide +kernel)) ?_, guarded.reuse "a@b.c" _ _ ?_ ?_ ?_⟩
  · unfold Free
    decide +kernel
  · unfold Released
    decide +kernel
  · exact .register rfl (by decide) (by decide +kernel)
  · exact .register rfl (by decide +kernel) (by decide)

end Indexed

end ProjectManagement
