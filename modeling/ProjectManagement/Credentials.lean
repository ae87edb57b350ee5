import ProjectManagement.AccountStanding
import ProjectManagement.Registration
import ProjectManagement.Served

/-!
Who can log in. The addresses and the passwords of the accounts are registers, as their standing is; the last words
written to the three of them decide every login, with whether its answer can show the address.
-/

namespace ProjectManagement

open Library

variable {E : EmailStr} {D : Deployment} {c : Call} {i : Input} {e : Event} {w : World} {d : Db} {users : Table User} {u v : User} {id : Uuid}
  {request : Request} {es : List Event} {email password : String}

def accountColumn (column : User → String) (users : Table User) (id : Uuid) : Option String := (users.lookup id).map column

abbrev addresses : Table User → Uuid → Option String := accountColumn User.email

abbrev passwordHashes : Table User → Uuid → Option String := accountColumn User.hashedPassword

def Request.address (c : Call) : Request → Option (Uuid × Option String)
  | .register p => some (c.fresh.id, some p.email)
  | .createUser p => some (c.fresh.id, some p.email)
  | .updateUser id p =>
    match p.email with
    | .value email => some (id, some email)
    | _ => none
  | _ => none

/-- A password goes to the new account, or to the account of the caller. -/
def Request.passwordHash (D : Deployment) (c : Call) : Request → Option (Uuid × Option String)
  | .register p => some (c.fresh.id, D.bcrypt.hashpw p.password.toUTF8 c.fresh.salt)
  | .createUser p => some (c.fresh.id, D.bcrypt.hashpw p.password.toUTF8 c.fresh.salt)
  | .changePassword p => ((c.bearer.bind (decodeAccessToken c)).bind AccessToken.sub).map fun id =>
      (id, D.bcrypt.hashpw p.newPassword.toUTF8 c.fresh.salt)
  | _ => none

def addressWrite (D : Deployment) (e : Event) (w : World) : Option (Uuid × Option String) :=
  match e with
  | .request i => if (outcome D i w).isOk then i.request.address i.call else none
  | .seedAdmin c email .. => if (nextWorld D e w).1.users.rows = w.1.users.rows then none else some (c.fresh.id, some email)

def passwordWrite (D : Deployment) (e : Event) (w : World) : Option (Uuid × Option String) :=
  match e with
  | .request i => if (outcome D i w).isOk then i.request.passwordHash D i.call else none
  | .seedAdmin c _ password _ =>
    if (nextWorld D e w).1.users.rows = w.1.users.rows then none
    else some (c.fresh.id, D.bcrypt.hashpw password.toUTF8 c.fresh.salt)

theorem address_of_reads (reads : request.reads = true) : request.address c = none := by
  cases request <;> first | rfl | exact absurd reads (by simp [Request.reads])

theorem passwordHash_of_reads (reads : request.reads = true) : request.passwordHash D c = none := by
  cases request <;> first | rfl | exact absurd reads (by simp [Request.reads])

section Columns

/-! An account that is added, and one that is changed. -/

variable {column : User → String} {t : Table User}

theorem accountColumn_added (rows : users.rows = t.rows ++ [v]) :
    accountColumn column users = Function.update (accountColumn column t) v.id (some (column v)) :=
  (seen_added (Option.map column) rows).2

theorem accountColumn_new (rows : users.rows = t.rows ++ [v]) : accountColumn column t v.id = none := by
  rw [accountColumn, (seen_added (Option.map column) rows).1]
  rfl

theorem accountColumn_eq (hu : u ∈ users.rows) : accountColumn column users u.id = some (column u) := by
  have hlookup : users.lookup u.id = some u := Table.lookup_eq_some.mpr ⟨hu, rfl⟩
  rw [accountColumn, hlookup]
  rfl

theorem accountColumn_flushed (hu : u ∈ t.rows) (hid : v.id = u.id) (stamped : column (UserRepository.stamped D c v) = column v) :
    accountColumn column (t.put (afterFlush (UserRepository.stamped D c) u v)) =
      Function.update (accountColumn column t) u.id (some (column v)) :=
  seen_flushed (Option.map column) hu hid (congrArg some stamped)

theorem accountColumn_kept (hu : u ∈ t.rows) (hid : v.id = u.id) (stamped : column (UserRepository.stamped D c v) = column v)
    (same : column v = column u) :
    accountColumn column (t.put (afterFlush (UserRepository.stamped D c) u v)) = accountColumn column t := by
  rw [accountColumn_flushed hu hid stamped, same, ← accountColumn_eq hu, Function.update_eq_self]

end Columns

/-! One step writes what the log says. -/

theorem addresses_updated {p : UserUpdate} (hu : u ∈ d.users.rows) (sent : p.setattrs u = .ok v) :
    addresses (d.users.put (afterFlush (UserRepository.stamped D c) u v)) =
      store ((Request.updateUser u.id p).address c) (addresses d.users) := by
  obtain ⟨⟨notNull, -, -⟩, rfl⟩ := UserUpdate.setattrs_eq_ok.mp sent
  have hemail : (p.applied u).email = p.email.assignNotNull u.email := rfl
  cases h : p.email with
  | unset =>
    rw [h] at hemail
    simp only [Request.address, h]
    exact accountColumn_kept hu rfl rfl hemail
  | null => exact absurd h notNull
  | value email =>
    rw [h] at hemail
    simp only [Request.address, h]
    exact (accountColumn_flushed (v := p.applied u) hu rfl rfl).trans (by rw [hemail]; rfl)

theorem addresses_step : addresses (nextWorld D e w).1.users = store (addressWrite D e w) (addresses w.1.users) := by
  cases e with
  | seedAdmin c email password fullName =>
    rw [addressWrite]
    rcases seedAdmin_next (D := D) (w := w) c email password fullName with hw | ⟨hashed, users, -, -, rows, hw⟩
    · rw [hw, if_pos rfl]
      rfl
    · rw [hw, if_neg (by simp [rows])]
      exact accountColumn_added rows
  | request i =>
    have effect := step_effect D i w
    change addresses (next D i w).1.users = _
    rw [addressWrite]
    generalize outcome D i w = o at effect ⊢
    generalize next D i w = w' at effect ⊢
    cases effect with
    | rejected => rfl
    | answered reads =>
      rw [address_of_reads reads, ite_self]
      rfl
    | registered errors policy free hash rows => exact accountColumn_added rows
    | userCreated caller admin errors policy free hash rows => exact accountColumn_added rows
    | passwordChanged caller errors verified policy hash => exact accountColumn_kept caller.mem (by rfl) (by rfl) (by rfl)
    | userUpdated caller errors allowed found status free sent =>
      obtain ⟨hu, -, rfl⟩ := UserRepository.find_eq_some.mp found
      exact addresses_updated hu sent
    | roleUpdated caller admin found =>
      exact accountColumn_kept (UserRepository.find_eq_some.mp found).1 (by rfl) (by rfl) (by rfl)
    | userDeleted caller admin other found =>
      exact accountColumn_kept (UserRepository.find_eq_some.mp found).1 (by rfl) (by rfl) (by rfl)
    | _ => rfl

theorem passwordHash_changed {p : ChangePassword} (caller : CurrentUser c d u) :
    (Request.changePassword p).passwordHash D c = some (u.id, D.bcrypt.hashpw p.newPassword.toUTF8 c.fresh.salt) := by
  obtain ⟨payload, token, sub⟩ := caller.token
  simp [Request.passwordHash, token, sub]

theorem passwordHashes_step :
    passwordHashes (nextWorld D e w).1.users = store (passwordWrite D e w) (passwordHashes w.1.users) := by
  cases e with
  | seedAdmin c email password fullName =>
    rw [passwordWrite]
    rcases seedAdmin_next (D := D) (w := w) c email password fullName with hw | ⟨hashed, users, -, hash, rows, hw⟩
    · rw [hw, if_pos rfl]
      rfl
    · rw [hw, if_neg (by simp [rows]), hash]
      exact accountColumn_added rows
  | request i =>
    have effect := step_effect D i w
    change passwordHashes (next D i w).1.users = _
    rw [passwordWrite]
    generalize outcome D i w = o at effect ⊢
    generalize next D i w = w' at effect ⊢
    cases effect with
    | rejected => rfl
    | answered reads =>
      rw [passwordHash_of_reads reads, ite_self]
      rfl
    | registered errors policy free hash rows =>
      simp only [Request.passwordHash, hash]
      exact accountColumn_added rows
    | userCreated caller admin errors policy free hash rows =>
      simp only [Request.passwordHash, hash]
      exact accountColumn_added rows
    | passwordChanged caller errors verified policy hash =>
      simp only [passwordHash_changed caller, hash]
      exact accountColumn_flushed caller.mem (by rfl) (by rfl)
    | userUpdated caller errors allowed found status free sent =>
      obtain ⟨hu, -, -⟩ := UserRepository.find_eq_some.mp found
      obtain ⟨-, rfl⟩ := UserUpdate.setattrs_eq_ok.mp sent
      exact accountColumn_kept hu rfl rfl rfl
    | roleUpdated caller admin found =>
      exact accountColumn_kept (UserRepository.find_eq_some.mp found).1 (by rfl) (by rfl) (by rfl)
    | userDeleted caller admin other found =>
      exact accountColumn_kept (UserRepository.find_eq_some.mp found).1 (by rfl) (by rfl) (by rfl)
    | _ => rfl

/-! Who writes to an account there is. -/

theorem addressWrite_allowed {k : Uuid × Option String} (h : addressWrite D (.request i) w = some k)
    (there : addresses w.1.users k.1 ≠ none) :
    ∃ actor, CurrentUser i.call w.1 actor ∧ (actor.role = .admin ∨ actor.id = k.1) := by
  have effect := step_effect D i w
  rw [addressWrite] at h
  generalize outcome D i w = o at effect h
  generalize next D i w = w' at effect
  cases effect with
  | rejected => exact absurd h (by simp [Except.isOk, Except.toBool])
  | answered reads =>
    rw [address_of_reads reads, ite_self] at h
    exact absurd h (by simp)
  | registered errors policy free hash rows =>
    obtain rfl := Option.some.inj h
    exact absurd (accountColumn_new rows) there
  | userCreated caller admin errors policy free hash rows =>
    obtain rfl := Option.some.inj h
    exact absurd (accountColumn_new rows) there
  | @userUpdated c d b a id p actor u v caller errors allowed found status free sent =>
    refine ⟨actor, caller, ?_⟩
    cases hemail : p.email with
    | unset => simp [Except.isOk, Except.toBool, Request.address, hemail] at h
    | null => simp [Except.isOk, Except.toBool, Request.address, hemail] at h
    | value email =>
      obtain rfl : (id, some email) = k := by simpa [Except.isOk, Except.toBool, Request.address, hemail] using h
      exact allowed
  | _ => exact absurd h (by simp [Except.isOk, Except.toBool, Request.address])

/-- A password is replaced by its owner only, who knows the one in force. -/
theorem passwordWrite_allowed {k : Uuid × Option String} (h : passwordWrite D (.request i) w = some k)
    (there : addresses w.1.users k.1 ≠ none) :
    ∃ p u, i.request = .changePassword p ∧ CurrentUser i.call w.1 u ∧ u.id = k.1 ∧
      ∃ hashed, passwordHashes w.1.users k.1 = some hashed ∧ verifyPassword D p.currentPassword hashed = true := by
  have effect := step_effect D i w
  rw [passwordWrite] at h
  generalize outcome D i w = o at effect h
  generalize next D i w = w' at effect
  cases effect with
  | rejected => exact absurd h (by simp [Except.isOk, Except.toBool])
  | answered reads =>
    rw [passwordHash_of_reads reads, ite_self] at h
    exact absurd h (by simp)
  | registered errors policy free hash rows =>
    obtain rfl := Option.some.inj h
    exact absurd (accountColumn_new rows) there
  | userCreated caller admin errors policy free hash rows =>
    obtain rfl := Option.some.inj h
    exact absurd (accountColumn_new rows) there
  | @passwordChanged c d b a p u hashed caller errors verified policy hash =>
    obtain rfl := Option.some.inj ((passwordHash_changed caller).symm.trans h)
    exact ⟨p, u, rfl, caller, rfl, u.hashedPassword, accountColumn_eq caller.mem, verified⟩
  | _ => exact absurd h (by simp [Except.isOk, Except.toBool, Request.passwordHash])

/-! A login, judged by the three registers. -/

inductive LoginVerdict
  | refused
  | inactive
  | unanswerable
  | granted (id : Uuid)

namespace LoginVerdict

inductive Judged (E : EmailStr) (verifies : String → Bool) (email : String) (address hash : Uuid → Option String)
    (standing : Uuid → Standing) : LoginVerdict → Prop
  | granted {id h} (held : address id = some email) (stands : standing id = .active) (set : hash id = some h)
      (verified : verifies h = true) (shown : E.accepts email = true) : Judged E verifies email address hash standing (.granted id)
  | unanswerable {id h} (held : address id = some email) (stands : standing id = .active) (set : hash id = some h)
      (verified : verifies h = true) (refuses : E.accepts email = false) :
      Judged E verifies email address hash standing .unanswerable
  | inactive {id h} (held : address id = some email) (stands : standing id = .inactive) (set : hash id = some h)
      (verified : verifies h = true) : Judged E verifies email address hash standing .inactive
  | refused (nobody : ∀ id h, address id = some email → standing id = .active ∨ standing id = .inactive → hash id = some h →
      verifies h = false) : Judged E verifies email address hash standing .refused

theorem exists_judged (E : EmailStr) (verifies : String → Bool) (email : String) (address hash : Uuid → Option String)
    (standing : Uuid → Standing) : ∃ v, Judged E verifies email address hash standing v := by
  by_cases h : ∃ id hashed, address id = some email ∧ (standing id = .active ∨ standing id = .inactive) ∧
      hash id = some hashed ∧ verifies hashed = true
  · obtain ⟨id, hashed, held, stands | stands, set, verified⟩ := h
    · cases shown : E.accepts email with
      | true => exact ⟨_, .granted held stands set verified shown⟩
      | false => exact ⟨_, .unanswerable held stands set verified shown⟩
    · exact ⟨_, .inactive held stands set verified⟩
  · refine ⟨_, .refused fun id hashed held stands set => ?_⟩
    rw [← Bool.not_eq_true]
    exact fun verified => h ⟨id, hashed, held, stands, set, verified⟩

/-- An account whose address the answer cannot show is verified first; its login then fails like any unforeseen error, and no
session is stored. -/
def Answered (E : EmailStr) (D : Deployment) (c : Call) (email password : String) (w : World) : LoginVerdict → Prop
  | refused => servedOutcome E D ⟨c, .login email password⟩ w =
      .error (.app (unauthorizedError "Incorrect email or password" .invalidCredentials))
  | inactive => servedOutcome E D ⟨c, .login email password⟩ w =
      .error (.app (unauthorizedError "Account is inactive" .inactiveAccount))
  | unanswerable => servedOutcome E D ⟨c, .login email password⟩ w = .error .unexpected ∧
      (servedNext E D ⟨c, .login email password⟩ w).1 = w.1
  | granted id => ∃ u user a accessToken refreshToken, UserRepository.find id w.1 = some u ∧
      (UserOut.modelValidate u).validated E = some user ∧ servedOutcome E D ⟨c, .login email password⟩ w = .ok a ∧
      a.data = .login accessToken refreshToken user

end LoginVerdict

theorem login_refused (errors : loginErrors email password = []) {o : Option User}
    (account : UserRepository.oneWithEmail D email w.1 = .ok o)
    (wrong : ∀ u, o = some u → verifyPassword D password u.hashedPassword = false) :
    LoginVerdict.refused.Answered E D c email password w := by
  have hnone : o.filter (fun u => verifyPassword D password u.hashedPassword) = none := by
    rw [Option.filter_eq_none_iff]
    intro u hu
    rw [wrong u hu]
    exact Bool.false_ne_true
  have hraise : (Routes.login D c email password).Raises ⟨w.1, w.1, w.2⟩
      (.app (unauthorizedError "Incorrect email or password" .invalidCredentials)) ⟨w.1, w.1, w.2⟩ := by
    refine Tx.Succeeds.bind_raises (a := ()) (succeeds_validated.mpr ⟨errors, rfl⟩) (.bind ?_)
    refine Tx.Succeeds.bind_raises (UserRepository.succeeds_getByEmail.mpr ⟨account, rfl⟩) (.bind ?_)
    rw [hnone]
    exact Tx.raises_ofExcept
  have houtcome : outcome D ⟨c, .login email password⟩ w = _ := congrArg Prod.fst (Tx.run_of_raises hraise)
  exact (served_of_error houtcome).1

theorem login_inactive (errors : loginErrors email password = [])
    (account : UserRepository.oneWithEmail D email w.1 = .ok (some u))
    (verified : verifyPassword D password u.hashedPassword = true) (closed : u.isActive = false) :
    LoginVerdict.inactive.Answered E D c email password w := by
  have hraise : (Routes.login D c email password).Raises ⟨w.1, w.1, w.2⟩
      (.app (unauthorizedError "Account is inactive" .inactiveAccount)) ⟨w.1, w.1, w.2⟩ := by
    refine Tx.Succeeds.bind_raises (a := ()) (succeeds_validated.mpr ⟨errors, rfl⟩) (.bind ?_)
    refine Tx.Succeeds.bind_raises (UserRepository.succeeds_getByEmail.mpr ⟨account, rfl⟩) ?_
    refine Tx.Succeeds.bind_raises (Tx.succeeds_orRaise.mpr ⟨Option.filter_eq_some_iff.mpr ⟨rfl, verified⟩, rfl⟩) (.bind ?_)
    exact Tx.raises_refuseIf closed
  have houtcome : outcome D ⟨c, .login email password⟩ w = _ := congrArg Prod.fst (Tx.run_of_raises hraise)
  exact (served_of_error houtcome).1

theorem login_granted (login : LogsIn D c email password w (UserOut.modelValidate u)) (shown : E.accepts u.email = true)
    (found : UserRepository.find u.id w.1 = some u) : (LoginVerdict.granted u.id).Answered E D c email password w := by
  obtain ⟨a, accessToken, refreshToken, ok, hdata⟩ := login
  obtain ⟨user, hvalid⟩ := Option.isSome_iff_exists.mp (UserOut.isSome_validated (u := UserOut.modelValidate u) |>.trans shown)
  have hresponse : a.data.validated E = some (.login accessToken refreshToken user) := by
    rw [hdata, Data.validated, hvalid]
    rfl
  exact ⟨u, user, _, accessToken, refreshToken, found, hvalid, (served_of_validated ok hresponse).1, rfl⟩

theorem login_unanswerable (login : LogsIn D c email password w (UserOut.modelValidate u)) (refuses : E.accepts u.email = false) :
    LoginVerdict.unanswerable.Answered E D c email password w := by
  obtain ⟨a, accessToken, refreshToken, ok, hdata⟩ := login
  have hrefused : a.data.accounts.all (fun u => E.accepts u.email) = false := by
    rw [hdata]
    simpa [Data.accounts, UserOut.modelValidate] using refuses
  obtain ⟨houtcome, hnext⟩ := served_of_refused ok hrefused
  exact ⟨houtcome, by rw [hnext]⟩

theorem account_of_registers {h : String} (held : addresses w.1.users id = some email) (set : passwordHashes w.1.users id = some h)
    (stands : standing w.1.users id ≠ .deleted) :
    ∃ u, u ∈ w.1.users.rows ∧ u.live = true ∧ u.id = id ∧ u.email = email ∧ u.hashedPassword = h := by
  rw [addresses, accountColumn, Option.map_eq_some_iff] at held
  obtain ⟨u, hlookup, hemail⟩ := held
  rw [passwordHashes, accountColumn, hlookup] at set
  obtain ⟨hu, hid⟩ := Table.lookup_eq_some.mp hlookup
  rw [key_user] at hid
  subst hid
  rw [standing_eq hu, User.standing] at stands
  refine ⟨u, hu, ?_, rfl, hemail, Option.some.inj set⟩
  by_contra hdead
  rw [if_neg hdead] at stands
  exact stands rfl

theorem registers_judge (sound : Indexed.Sound D w.1.users) (errors : loginErrors email password = [])
    (text : holdsNul D.engine [email] = false) (fresh : FreshSession D c w.1) {v : LoginVerdict}
    (judged : v.Judged E (verifyPassword D password) email (addresses w.1.users) (passwordHashes w.1.users)
      (standing w.1.users)) : v.Answered E D c email password w := by
  have one : ∀ u ∈ w.1.users.rows, u.live = true → u.email = email →
      UserRepository.oneWithEmail D email w.1 = .ok (some u) := by
    rintro u hu live rfl
    exact UserRepository.oneWithEmail_some.mpr ⟨text, sound.withEmail hu live⟩
  have logsIn : ∀ {id h}, addresses w.1.users id = some email → standing w.1.users id = .active →
      passwordHashes w.1.users id = some h → verifyPassword D password h = true → ∃ u, UserRepository.find id w.1 = some u ∧
        u.id = id ∧ u.email = email ∧ LogsIn D c email password w (UserOut.modelValidate u) := by
    intro id h held stands set verified
    obtain ⟨u, hu, live, rfl, hemail, rfl⟩ := account_of_registers held set (by simp [stands])
    obtain ⟨u', found, active⟩ := standing_eq_active.mp stands
    obtain rfl : u' = u := Option.some.inj (found.symm.trans (UserRepository.find_eq_some.mpr ⟨hu, live, rfl⟩))
    exact ⟨u', found, rfl, hemail, .of_account errors (one u' hu live hemail) verified active fresh⟩
  cases judged with
  | granted held stands set verified shown =>
    obtain ⟨u, found, rfl, hemail, login⟩ := logsIn held stands set verified
    exact login_granted login (hemail ▸ shown) found
  | unanswerable held stands set verified refuses =>
    obtain ⟨u, -, -, hemail, login⟩ := logsIn held stands set verified
    exact login_unanswerable login (hemail ▸ refuses)
  | @inactive id h held stands set verified =>
    obtain ⟨u, hu, live, rfl, hemail, rfl⟩ := account_of_registers held set (by simp [stands])
    refine login_inactive errors (one u hu live hemail) verified ?_
    rw [standing_of_found (UserRepository.find_eq_some.mpr ⟨hu, live, rfl⟩)] at stands
    by_contra hactive
    rw [Bool.not_eq_false] at hactive
    exact absurd stands (by simp [hactive])
  | refused nobody =>
    rcases sound.withEmail_cases email with free | ⟨u, account⟩
    · exact login_refused errors (UserRepository.oneWithEmail_none.mpr ⟨text, Indexed.withEmail_eq_nil.mpr free⟩) (by simp)
    · refine login_refused errors account ?_
      rintro v hv
      obtain rfl := Option.some.inj hv
      have hmem : u ∈ UserRepository.withEmail email w.1 := by simp [(UserRepository.oneWithEmail_some.mp account).2]
      rw [UserRepository.withEmail, List.mem_filter, Bool.and_eq_true, beq_iff_eq] at hmem
      obtain ⟨hu, live, hemail⟩ := hmem
      refine nobody u.id _ ((accountColumn_eq hu).trans (congrArg some hemail)) ?_ (accountColumn_eq hu)
      rw [standing_of_found (UserRepository.find_eq_some.mpr ⟨hu, live, rfl⟩)]
      cases u.isActive
      · exact Or.inr rfl
      · exact Or.inl rfl

/-! The registers along a run. -/

/-- A request whose response fails has written nothing. -/
def servedWrite {β : Type} (E : EmailStr) (D : Deployment) (write : Event → World → Option (Uuid × β)) (e : Event) (w : World) :
    Option (Uuid × β) :=
  if e.shown E D w then write e w else none

/-- The last write to the register of an account. -/
def lastWritten {β : Type} (E : EmailStr) (D : Deployment) (write : Event → World → Option (Uuid × β)) (initial : β)
    (es : List Event) (id : Uuid) : β :=
  (writesTo id (labels (servedWorld E D) (servedWrite E D write) World.initial es)).getLastD initial

theorem servedWrite_eq_some {β : Type} {write : Event → World → Option (Uuid × β)} {k : Uuid × β}
    (h : servedWrite E D write e w = some k) : write e w = some k := by
  unfold servedWrite at h
  split at h
  · exact h
  · simp at h

theorem lastWritten_eq {β : Type} {write : Event → World → Option (Uuid × β)} {initial : β} (seen : Table User → Uuid → β)
    (start : seen World.initial.1.users = fun _ => initial)
    (step : ∀ e w, seen (nextWorld D e w).1.users = store (write e w) (seen w.1.users)) :
    lastWritten E D write initial es = seen (servedFrom E D World.initial es).1.users := by
  have hstep : ∀ e w, seen (servedWorld E D e w).1.users = store (servedWrite E D write e w) (seen w.1.users) := by
    intro e w
    unfold servedWrite
    split
    · rename_i shown
      rw [servedWorld_of_shown shown]
      exact step e w
    · rename_i shown
      rw [servedWorld_of_not_shown (by simpa using shown)]
      rfl
  have hrun : Run store (fun _ _ => True) (seen World.initial.1.users)
      (labels (servedWorld E D) (servedWrite E D write) World.initial es) (seen (servedFrom E D World.initial es).1.users) := by
    apply (Run.of_foldl World.initial es).simulates (fun w => seen w.1.users) (fun _ => True)
    · exact fun e w _ _ => ⟨trivial, trivial, hstep e w⟩
    · trivial
  funext id
  rw [hrun.last_write id, start]
  rfl

theorem sound_servedFrom : Indexed.Sound D (servedFrom E D World.initial es).1.users := by
  apply (Run.of_foldl World.initial es).invariant (I := fun w => Indexed.Sound D w.1.users) ?_ Indexed.sound_initial
  intro e w _ sound
  rcases servedWorld_cases E D e w with hstep | hkept
  · rw [hstep]
    exact nextWorld_wrote.sound sound
  · rw [hkept]
    exact sound

/-- The addresses, passwords and standings last written decide every login; an account there is gets its address from an
administrator or from itself, and its password from nobody but itself. -/
theorem logins_decided (E : EmailStr) (D : Deployment) (es : List Event) :
    (∀ c email password, loginErrors email password = [] → holdsNul D.engine [email] = false →
      FreshSession D c (servedFrom E D World.initial es).1 →
      (∃ v, LoginVerdict.Judged E (verifyPassword D password) email (lastWritten E D (addressWrite D) none es)
        (lastWritten E D (passwordWrite D) none es) (lastWritten E D (standingWrite D) .absent es) v) ∧
      ∀ v, LoginVerdict.Judged E (verifyPassword D password) email (lastWritten E D (addressWrite D) none es)
        (lastWritten E D (passwordWrite D) none es) (lastWritten E D (standingWrite D) .absent es) v →
        v.Answered E D c email password (servedFrom E D World.initial es)) ∧
      (∀ i w, ∀ k ∈ servedWrite E D (addressWrite D) (.request i) w, addresses w.1.users k.1 ≠ none →
        ∃ actor, CurrentUser i.call w.1 actor ∧ (actor.role = .admin ∨ actor.id = k.1)) ∧
      ∀ i w, ∀ k ∈ servedWrite E D (passwordWrite D) (.request i) w, addresses w.1.users k.1 ≠ none →
        ∃ p u, i.request = .changePassword p ∧ CurrentUser i.call w.1 u ∧ u.id = k.1 ∧
          ∃ hashed, passwordHashes w.1.users k.1 = some hashed ∧ verifyPassword D p.currentPassword hashed = true := by
  refine ⟨fun c email password errors text fresh => ⟨LoginVerdict.exists_judged _ _ _ _ _ _, fun v judged => ?_⟩,
    fun i w k hk there => addressWrite_allowed (servedWrite_eq_some hk) there,
    fun i w k hk there => passwordWrite_allowed (servedWrite_eq_some hk) there⟩
  have haddress : lastWritten E D (addressWrite D) none es = addresses (servedFrom E D World.initial es).1.users :=
    lastWritten_eq addresses rfl fun _ _ => addresses_step
  have hpassword : lastWritten E D (passwordWrite D) none es = passwordHashes (servedFrom E D World.initial es).1.users :=
    lastWritten_eq passwordHashes rfl fun _ _ => passwordHashes_step
  have hstanding : lastWritten E D (standingWrite D) .absent es = standing (servedFrom E D World.initial es).1.users :=
    lastWritten_eq standing rfl fun _ _ => standing_step.2
  rw [haddress, hpassword, hstanding] at judged
  exact registers_judge sound_servedFrom errors text fresh judged

def movedAccount : List Event :=
  oneTask ++ sampleRequests 4 [(none, .register ⟨"a@b.c", "Passw0rd", "A"⟩), (some 64, .changePassword ⟨"Passw0rd", "Passw0rd2"⟩),
    (some 64, .updateUser 64 { email := .value "n@b.c" })] ++
    [.seedAdmin (Call.sample 8 none) "root" "Passw0rd" "Root"]

/-- The account logs in under its last address with its last password; the administrator the seed script gave a name for an
address is verified, and not answered. -/
theorem logins_decided_sample :
    writesTo 64 (labels (servedWorld .sample .sample) (servedWrite .sample .sample (addressWrite .sample)) World.initial
        movedAccount) = [some "a@b.c", some "n@b.c"] ∧
      (LoginVerdict.granted 64).Answered .sample .sample (Call.sample 9 none) "n@b.c" "Passw0rd2"
        (servedFrom .sample .sample World.initial movedAccount) ∧
      LoginVerdict.unanswerable.Answered .sample .sample (Call.sample 9 none) "root" "Passw0rd"
        (servedFrom .sample .sample World.initial movedAccount) := by
  have fresh : FreshSession .sample (Call.sample 9 none) (servedFrom .sample .sample World.initial movedAccount).1 := by
    unfold FreshSession
    decide +kernel
  refine ⟨by decide +kernel, ?_, ?_⟩
  · exact ((logins_decided .sample .sample movedAccount).1 (Call.sample 9 none) "n@b.c" "Passw0rd2" (by decide +kernel)
      (by decide +kernel) fresh).2 (.granted 64) (.granted (h := ":Passw0rd2") (by decide +kernel) (by decide +kernel)
        (by decide +kernel) (by decide +kernel) (by decide +kernel))
  · exact ((logins_decided .sample .sample movedAccount).1 (Call.sample 9 none) "root" "Passw0rd" (by decide +kernel)
      (by decide +kernel) fresh).2 .unanswerable (.unanswerable (h := ":Passw0rd")
        (show lastWritten .sample .sample (addressWrite .sample) none movedAccount 128 = some "root" by decide +kernel)
        (by decide +kernel) (by decide +kernel) (by decide +kernel) (by decide +kernel))

end ProjectManagement
