import ProjectManagement.AccountSessions
import ProjectManagement.Authentication
import ProjectManagement.Library.Refinement
import ProjectManagement.Raises

/-!
Concurrent sign-ups, by registration and by administrators. They are serializable: the ones that are accepted are answered as
if each had run alone, in the order of their commits, and one is refused for its address only because the address is in use.
-/

namespace ProjectManagement

open Library Library.UniqueIndex

inductive SignUp
  | register (payload : UserRegister)
  | createUser (payload : UserCreate)

namespace SignUp

def request : SignUp → AccountRequest
  | register p => .register p
  | createUser p => .createUser p

def email : SignUp → String
  | register p => p.email
  | createUser p => p.email

/-- Who may sign the account up. -/
def Admits (c : Call) (d : Db) : SignUp → Prop
  | register _ => True
  | createUser _ => ∃ actor, CurrentUser c d actor ∧ actor.role = .admin

def Enlists (D : Deployment) (c : Call) (u : User) : SignUp → Prop
  | register p => p.errors = [] ∧ passwordProblems D p.password = [] ∧
      ∃ hashed, D.bcrypt.hashpw p.password.toUTF8 c.fresh.salt = some hashed ∧ u = newUser D c p.email hashed p.fullName .employee
  | createUser p => p.errors = [] ∧ passwordProblems D p.password = [] ∧
      ∃ hashed, D.bcrypt.hashpw p.password.toUTF8 c.fresh.salt = some hashed ∧ u = newUser D c p.email hashed p.fullName p.role

end SignUp

section OneRequest

variable {D : Deployment} {c : Call} {a : SignUp} {d d' : Db} {b : Blobs} {u v : User} {email : String} {e : Raised}

theorem SignUp.Admits.grow (h : a.Admits c d) (grows : ∀ v ∈ d.users.rows, v ∈ d'.users.rows) : a.Admits c d' := by
  cases a with
  | register p => trivial
  | createUser p =>
    obtain ⟨actor, hcaller, hadmin⟩ := h
    obtain ⟨hmem, hfound⟩ := UserRepository.find_eq_some.mp hcaller.found
    exact ⟨actor, ⟨hcaller.token, UserRepository.find_eq_some.mpr ⟨grows _ hmem, hfound⟩, hcaller.active⟩, hadmin⟩

theorem SignUp.Enlists.fields (h : a.Enlists D c u) : u.id = c.fresh.id ∧ u.email = a.email ∧ u.live = true := by
  cases a with
  | register p =>
    obtain ⟨-, -, hashed, -, rfl⟩ := h
    exact ⟨rfl, rfl, rfl⟩
  | createUser p =>
    obtain ⟨-, -, hashed, -, rfl⟩ := h
    exact ⟨rfl, rfl, rfl⟩

theorem holdsNul_of_inserted (inserted : Db.insertUser D.engine u d = .ok d') : holdsNul D.engine [u.email] = false := by
  have hstored : unstorable D.engine [u.email, u.fullName] [] = false := (checked_ok inserted).1 _ List.mem_cons_self
  exact (unstorable_eq_false.mp (unstorable_cons.mp hstored).1).2

/-- A sign-up on its own, where its row can be inserted. -/
theorem SignUp.outcome_ok (admits : a.Admits c d) (enlists : a.Enlists D c u) (free : UserRepository.withEmail a.email d = [])
    (inserted : Db.insertUser D.engine u d = .ok d') :
    step D ⟨c, a.request.request⟩ (d, b) = (.ok (a.request.response u), d', b) := by
  have hfree : UserRepository.oneWithEmail D a.email d = .ok none := by
    rw [UserRepository.oneWithEmail_none, ← enlists.fields.2.1]
    exact ⟨holdsNul_of_inserted inserted, enlists.fields.2.1 ▸ free⟩
  have hsucceeds : (handle D c a.request.request).Succeeds ⟨d, d, b⟩ (a.request.response u) ⟨d, d', b⟩ := by
    cases a with
    | register p =>
      obtain ⟨errors, policy, hashed, hash, rfl⟩ := enlists
      simp only [SignUp.request, AccountRequest.request, handle_register, enlist, signUp, Tx.succeeds_bind, succeeds_validated,
        succeeds_enforcePasswordPolicy, UserRepository.succeeds_getByEmail, Tx.succeeds_refuseIf, succeeds_hashPassword,
        Tx.succeeds_pure, UserRepository.succeeds_addWith]
      exact ⟨_, _, ⟨(), _, ⟨errors, rfl⟩, (), _, ⟨policy, rfl⟩, none, _, ⟨hfree, rfl⟩, (), _,
        ⟨by simp, rfl⟩, hashed, _, ⟨hash, rfl⟩, rfl, rfl⟩, (), _, ⟨d', inserted, rfl⟩, rfl, rfl⟩
    | createUser p =>
      obtain ⟨errors, policy, hashed, hash, rfl⟩ := enlists
      obtain ⟨actor, caller, admin⟩ := admits
      simp only [SignUp.request, AccountRequest.request, handle_createUser, administrate, signUp, Tx.succeeds_bind,
        succeeds_getCurrentUser, succeeds_requireAdmin, succeeds_validated,
        succeeds_enforcePasswordPolicy, UserRepository.succeeds_getByEmail, Tx.succeeds_refuseIf, succeeds_hashPassword,
        Tx.succeeds_pure, UserRepository.succeeds_addWith]
      exact ⟨(), _, ⟨actor, _, ⟨caller, rfl⟩, (), _, ⟨admin, rfl⟩, errors, rfl⟩, _, _, ⟨(), _, ⟨policy, rfl⟩, none, _,
        ⟨hfree, rfl⟩, (), _, ⟨by simp, rfl⟩, hashed, _, ⟨hash, rfl⟩, rfl, rfl⟩, (), _,
        ⟨d', inserted, rfl⟩, rfl, rfl⟩
  exact Tx.run_ok.mpr ⟨_, hsucceeds, rfl⟩

/-! The errors. -/

def InUse (d : Db) (email : String) : Prop := ∃ v ∈ d.users.rows, v.live = true ∧ v.email = email

/-- Errors that blame the address only where it is in use. -/
def Blameless (d : Db) (email : String) : Set Raised := {e | e.response.statusCode = 409 → InUse d email}

theorem signUp_raises {password fullName : String} {role : UserRole} :
    (signUp D c email password fullName role).RaisesAt (Blameless d email) ⟨d, d, b⟩ := by
  have other {e : Raised} (h : e.response.statusCode ≠ 409) : e ∈ Blameless d email := fun h' => absurd h' h
  refine .bind (Tx.raisesAt_refuseIf fun _ => other (by simp [Raised.response, validationAppError])) fun _ _ h => ?_
  obtain rfl := (succeeds_enforcePasswordPolicy.mp h).2
  refine .bind (Tx.raisesAt_select fun e he => ?_) fun o _ h => ?_
  · rw [UserRepository.oneWithEmail_error he]
    exact other (by decide)
  obtain ⟨hfound, rfl⟩ := UserRepository.succeeds_getByEmail.mp h
  refine .bind (Tx.raisesAt_refuseIf fun hsome _ => ?_) fun _ _ h => ?_
  · obtain ⟨v, rfl⟩ := Option.isSome_iff_exists.mp hsome
    have hv : v ∈ UserRepository.withEmail email d := by
      rw [(UserRepository.oneWithEmail_some.mp hfound).2]
      exact List.mem_singleton_self v
    obtain ⟨hmem, hv⟩ := List.mem_filter.mp hv
    simp only [Bool.and_eq_true, beq_iff_eq] at hv
    exact ⟨v, hmem, hv⟩
  · obtain ⟨-, rfl⟩ := Tx.succeeds_refuseIf.mp h
    exact .bind (Tx.raisesAt_orRaise fun _ => other (by decide)) fun _ _ _ => Tx.raisesIn_pure _ _

theorem enlist_refused {p : UserRegister} (h : read (enlist D c p) d = .error e) : e ∈ Blameless d p.email := by
  refine read_error (fun b => .bind (Tx.raisesAt_refuseIf fun _ h' => absurd h' (by simp [Raised.response])) fun _ _ h => ?_) h
  obtain ⟨-, rfl⟩ := succeeds_validated.mp h
  exact signUp_raises

theorem administrate_refused {p : UserCreate} (h : read (administrate c p) d = .error e) : e ∈ Blameless d email := by
  have other {e : Raised} (h : e.response.statusCode ≠ 409) : e ∈ Blameless d email := fun h' => absurd h' h
  refine read_error (fun b => ?_) h
  refine .bind ((getCurrentUser_raisesIn _).mono fun e he => other ?_) fun _ _ _ =>
    .bind (Tx.raisesAt_refuseIf fun _ => other (by decide)) fun _ _ _ =>
      Tx.raisesAt_refuseIf fun _ => other (by simp [Raised.response])
  exact fun h' => absurd (he.symm.trans h') (by decide)

theorem insertUser_refused (new : ∀ v ∈ d.users.rows, v.id ≠ u.id) (h : Db.insertUser D.engine u d = .error e) :
    e ∈ Blameless d u.email := by
  rcases checked_error h with ⟨-, hnone⟩ | ⟨violated, hmem, hviolated, rfl⟩
  · obtain ⟨t, ht, -⟩ := Table.insert?_of_new (r := u) new
    rw [ht] at hnone
    exact absurd hnone (by simp)
  · simp only [List.mem_cons, List.not_mem_nil, or_false] at hmem
    rcases hmem with rfl | rfl
    · exact fun h' => absurd h' (by simp [Raised.response])
    · intro _
      simp only [Db.emailTaken, Bool.and_eq_true, List.any_eq_true, beq_iff_eq] at hviolated
      obtain ⟨-, v, hv, ⟨hlive, hemail⟩, -⟩ := hviolated
      exact ⟨v, hv, hlive, hemail⟩

theorem enlist_ok {p : UserRegister} (h : read (enlist D c p) d = .ok u) : (SignUp.register p).Enlists D c u := by
  obtain ⟨t, ht⟩ := Tx.answer_eq_ok.mp h
  simp only [enlist, signUp, Tx.succeeds_bind, succeeds_validated, succeeds_enforcePasswordPolicy, UserRepository.succeeds_getByEmail,
    Tx.succeeds_refuseIf, succeeds_hashPassword, Tx.succeeds_pure] at ht
  obtain ⟨-, -, ⟨errors, rfl⟩, -, -, ⟨policy, rfl⟩, -, -, ⟨-, rfl⟩, -, -, ⟨-, rfl⟩, hashed, -, ⟨hash, rfl⟩, rfl, rfl⟩ := ht
  exact ⟨errors, policy, hashed, hash, rfl⟩

theorem administrate_ok {p : UserCreate} (h : read (administrate c p) d = .ok ()) :
    p.errors = [] ∧ (SignUp.createUser p).Admits c d := by
  obtain ⟨t, ht⟩ := Tx.answer_eq_ok.mp h
  simp only [administrate, Tx.succeeds_bind, succeeds_getCurrentUser, succeeds_requireAdmin, succeeds_validated] at ht
  obtain ⟨actor, -, ⟨caller, rfl⟩, -, -, ⟨admin, rfl⟩, errors, rfl⟩ := ht
  exact ⟨errors, actor, caller, admin⟩

theorem signUp_ok {p : UserCreate} (errors : p.errors = []) (h : read (signUp D c p.email p.password p.fullName p.role) d = .ok u) :
    (SignUp.createUser p).Enlists D c u := by
  obtain ⟨t, ht⟩ := Tx.answer_eq_ok.mp h
  simp only [signUp, Tx.succeeds_bind, succeeds_enforcePasswordPolicy, UserRepository.succeeds_getByEmail,
    Tx.succeeds_refuseIf, succeeds_hashPassword, Tx.succeeds_pure] at ht
  obtain ⟨-, -, ⟨policy, rfl⟩, -, -, ⟨-, rfl⟩, -, -, ⟨-, rfl⟩, hashed, -, ⟨hash, rfl⟩, rfl, rfl⟩ := ht
  exact ⟨errors, policy, hashed, hash, rfl⟩

/-! The way of a sign-up to its commit. -/

theorem insertable_iff (hlive : u.live = true) : (∃ d', Db.insertUser D.engine u d = .ok d') ↔
    unstorable D.engine [u.email, u.fullName] [] = false ∧ ¬InUse d u.email ∧ ∀ v ∈ d.users.rows, v.id ≠ u.id := by
  constructor
  · rintro ⟨d', h⟩
    obtain ⟨hnew, hfree, -⟩ := Db.insertUser_ok h
    refine ⟨(checked_ok h).1 (unstorable D.engine [u.email, u.fullName] [], .unexpected) List.mem_cons_self, ?_, hnew⟩
    rintro ⟨v, hv, hl, hemail⟩
    exact Db.of_not_emailTaken hfree hlive v hv hl (hnew v hv) hemail
  · rintro ⟨hfits, hfree, hnew⟩
    obtain ⟨users, hinsert, -⟩ := Table.insert?_of_new (r := u) hnew
    refine ⟨{ d with users := users }, checked_eq_ok.mpr ⟨?_, congrArg (Option.map _) hinsert⟩⟩
    have htaken : d.emailTaken u = false := by
      simp only [Db.emailTaken, hlive, Bool.true_and, List.any_eq_false, Bool.and_eq_true, beq_iff_eq, not_and]
      intro v hv hsame
      exact absurd ⟨v, hv, hsame⟩ hfree
    simp [hfits, htaken]

theorem insertIn_eq (h : Db.insertUser D.engine u d = .ok d') : insertIn u d = d' := by
  obtain ⟨hnew, -, users, rows, rfl⟩ := Db.insertUser_ok h
  obtain ⟨users', hinsert, rows'⟩ := Table.insert?_of_new (r := u) hnew
  obtain rfl : users' = users := Table.ext (rows'.trans rows.symm)
  simp only [insertIn, hinsert]

def claim (u : User) : Write Db AccountKey := await [.user u.id, .email u.email]

/-- How far a sign-up has come, in a state that has been committed. -/
inductive Enrolling (D : Deployment) (c : Call) (a : SignUp) (d : Db) : AccountPhase → List (Write Db AccountKey) → Prop
  | start : Enrolling D c a d .start []
  | admitted {p : UserCreate} (admin : a = .createUser p) (errors : p.errors = []) (admits : a.Admits c d) :
      Enrolling D c a d (.admitted p) []
  | enlisted {u : User} (admits : a.Admits c d) (enlists : a.Enlists D c u) : Enrolling D c a d (.enlisted u) []
  | claimed {u : User} (admits : a.Admits c d) (enlists : a.Enlists D c u) : Enrolling D c a d (.claimed u) [claim u]
  | answered {u : User} (admits : a.Admits c d) (enlists : a.Enlists D c u) (inserted : ∃ d', Db.insertUser D.engine u d = .ok d') :
      Enrolling D c a d (.answered u) [claim u, insertStatement u]
  | failed {e : Raised} (refused : e ∈ Blameless d a.email) : Enrolling D c a d (.failed e) []

variable {p : AccountPhase} {ws : List (Write Db AccountKey)}

/-- Somebody else commits an account. -/
theorem Enrolling.grow (h : Enrolling D c a d p ws) (rows : d'.users.rows = d.users.rows ++ [v])
    (apart : ∀ k ∈ locked ws, k ≠ .user v.id ∧ k ≠ .email v.email) : Enrolling D c a d' p ws := by
  have grows : ∀ v ∈ d.users.rows, v ∈ d'.users.rows := fun v hv => rows ▸ List.mem_append_left _ hv
  cases h with
  | start => exact .start
  | admitted admin errors admits => exact .admitted admin errors (admits.grow grows)
  | enlisted admits enlists => exact .enlisted (admits.grow grows) enlists
  | claimed admits enlists => exact .claimed (admits.grow grows) enlists
  | @answered u admits enlists inserted =>
    refine .answered (admits.grow grows) enlists ?_
    obtain ⟨hfits, hfree, hnew⟩ := (insertable_iff enlists.fields.2.2).mp inserted
    have hid := (apart (.user u.id) (by simp [locked, claim, await])).1
    have hemail := (apart (.email u.email) (by simp [locked, claim, await])).2
    refine (insertable_iff enlists.fields.2.2).mpr ⟨hfits, ?_, Table.forall_append hnew rows fun h => hid (by rw [h])⟩
    rintro ⟨x, hx, hl, hx'⟩
    rw [rows, List.mem_append, List.mem_singleton] at hx
    rcases hx with hx | rfl
    · exact hfree ⟨x, hx, hl, hx'⟩
    · exact hemail (by rw [hx'])
  | failed refused =>
    refine .failed fun h409 => ?_
    obtain ⟨x, hx, hx'⟩ := refused h409
    exact ⟨x, grows x hx, hx'⟩

theorem Enrolling.next (h : Enrolling D c a d p ws) (new : ∀ v ∈ d.users.rows, v.id ≠ c.fresh.id) :
    (∃ q, AccountPhase.next D c a.request p (replayed ws d) = .read q ∧ Enrolling D c a d q ws) ∨
    (∃ w q, AccountPhase.next D c a.request p (replayed ws d) = .write w q ∧ Enrolling D c a d q (ws ++ [w])) ∨
    (∃ e, AccountPhase.next D c a.request p (replayed ws d) = .rollback (.failed e) ∧ e ∈ Blameless d a.email) ∨
    (∃ u d', p = .answered u ∧ ws = [claim u, insertStatement u] ∧ a.Admits c d ∧ a.Enlists D c u ∧
      Db.insertUser D.engine u d = .ok d') ∨
    AccountPhase.next D c a.request p (replayed ws d) = .stop := by
  cases h with
  | start =>
    change (∃ q, AccountPhase.next D c a.request .start d = .read q ∧ _) ∨ _
    cases a with
    | register p =>
      cases hread : read (enlist D c p) d with
      | ok u => exact Or.inl ⟨.enlisted u, by simp only [SignUp.request, AccountPhase.next, hread], .enlisted trivial (enlist_ok hread)⟩
      | error e =>
        refine Or.inr (Or.inr (Or.inl ⟨e, ?_, enlist_refused hread⟩))
        change AccountPhase.next D c (.register p) .start d = _
        simp only [AccountPhase.next, hread]
    | createUser p =>
      cases hread : read (administrate c p) d with
      | ok _ =>
        obtain ⟨errors, admits⟩ := administrate_ok hread
        exact Or.inl ⟨.admitted p, by simp only [SignUp.request, AccountPhase.next, hread], .admitted rfl errors admits⟩
      | error e =>
        refine Or.inr (Or.inr (Or.inl ⟨e, ?_, administrate_refused hread⟩))
        change AccountPhase.next D c (.createUser p) .start d = _
        simp only [AccountPhase.next, hread]
  | @admitted p admin errors admits =>
    subst admin
    change (∃ q, AccountPhase.next D c _ (.admitted p) d = .read q ∧ _) ∨ _
    cases hread : read (signUp D c p.email p.password p.fullName p.role) d with
    | ok u => exact Or.inl ⟨.enlisted u, by simp only [AccountPhase.next, hread], .enlisted admits (signUp_ok errors hread)⟩
    | error e =>
      refine Or.inr (Or.inr (Or.inl ⟨e, ?_, read_error (fun _ => signUp_raises) hread⟩))
      change AccountPhase.next D c _ (.admitted p) d = _
      simp only [AccountPhase.next, hread]
  | @enlisted u admits enlists => exact Or.inr (Or.inl ⟨_, _, rfl, .claimed admits enlists⟩)
  | @claimed u admits enlists =>
    have hview : replayed [claim u] d = d := rfl
    rw [hview]
    cases hinsert : Db.insertUser D.engine u d with
    | ok d' =>
      refine Or.inr (Or.inl ⟨insertStatement u, .answered u, ?_, .answered admits enlists ⟨d', hinsert⟩⟩)
      simp only [AccountPhase.next, hinsert]
    | error e =>
      refine Or.inr (Or.inr (Or.inl ⟨e, ?_, ?_⟩))
      · simp only [AccountPhase.next, hinsert]
      · obtain ⟨hid, hemail, -⟩ := enlists.fields
        rw [← hemail]
        exact insertUser_refused (fun v hv => hid ▸ new v hv) hinsert
  | @answered u admits enlists inserted =>
    obtain ⟨d', hinsert⟩ := inserted
    exact Or.inr (Or.inr (Or.inr (Or.inl ⟨u, d', rfl, rfl, admits, enlists, hinsert⟩)))
  | failed refused => exact Or.inr (Or.inr (Or.inr (Or.inr rfl)))

theorem withEmail_of_not_inUse (h : ¬InUse d email) : UserRepository.withEmail email d = [] := by
  apply List.filter_eq_nil_iff.mpr
  intro v hv hv'
  simp only [Bool.and_eq_true, beq_iff_eq] at hv'
  exact h ⟨v, hv, hv'⟩

end OneRequest

/-! Schedules. -/

section Schedules

variable {ι : Type} [DecidableEq ι] {D : Deployment} {calls : ι → Call} {signUps : ι → SignUp} {d : Db} {b : Blobs}
  {s s' : AccountSessions ι} {i : ι}

def AccountPhase.answer : AccountPhase → Option Outcome
  | .done r => some (.ok r)
  | .failed e => some (.error e)
  | _ => none

abbrev signUpInput (calls : ι → Call) (signUps : ι → SignUp) (i : ι) : Input := ⟨calls i, (signUps i).request.request⟩

/-- Where the sign-ups that have committed lead from `w`, each as a request of its own. -/
def serially (D : Deployment) (calls : ι → Call) (signUps : ι → SignUp) (w : World) (order : List ι) : World :=
  order.foldl (fun w i => next D (signUpInput calls signUps i) w) w

/-- What they are answered on the way. -/
def serialAnswers (D : Deployment) (calls : ι → Call) (signUps : ι → SignUp) (w : World) (order : List ι) : List (Option Outcome) :=
  labels (fun i w => next D (signUpInput calls signUps i) w) (fun i w => some (outcome D (signUpInput calls signUps i) w)) w order

structure Serialized (D : Deployment) (calls : ι → Call) (signUps : ι → SignUp) (d : Db) (b : Blobs) (s : AccountSessions ι) : Prop where
  index : activeEmails.Maintained s
  enrolling : ∀ i, i ∉ s.commits → Enrolling D (calls i) (signUps i) s.committed (s.phase i) (s.pending i)
  accepted : ∀ i ∈ s.commits, ∃ r, s.phase i = .done r
  nodup : s.commits.Nodup
  state : serially D calls signUps (d, b) s.commits = (s.committed, b)
  answers : serialAnswers D calls signUps (d, b) s.commits = s.commits.map fun i => (s.phase i).answer
  known : ∀ v ∈ s.committed.users.rows,
    v ∈ d.users.rows ∨ ∃ i ∈ s.commits, v.id = (calls i).fresh.id ∧ v.email = (signUps i).email
  stored : ∀ i ∈ s.commits, ∃ v ∈ s.committed.users.rows, v.live = true ∧ v.id = (calls i).fresh.id ∧ v.email = (signUps i).email

omit [DecidableEq ι] in
theorem serialized_start (h : d.users.Identifies User.live User.email) :
    Serialized D calls signUps d b (Sessions.start d .start : AccountSessions ι) where
  index := UniqueIndex.maintained_start h
  enrolling _ _ := .start
  accepted := by simp [Sessions.start]
  nodup := List.nodup_nil
  state := rfl
  answers := rfl
  known v hv := Or.inl hv
  stored := by simp [Sessions.start]

/-- A statement of one transaction that commits nothing. -/
theorem Serialized.own (h : Serialized D calls signUps d b s) (hi : i ∉ s.commits) (index : activeEmails.Maintained s')
    (committed : s'.committed = s.committed) (commits : s'.commits = s.commits) (phase : ∀ j, j ≠ i → s'.phase j = s.phase j)
    (pending : ∀ j, j ≠ i → s'.pending j = s.pending j)
    (enrolling : Enrolling D (calls i) (signUps i) s.committed (s'.phase i) (s'.pending i)) : Serialized D calls signUps d b s' where
  index := index
  enrolling j hj := by
    rw [commits] at hj
    rw [committed]
    by_cases hji : j = i
    · rw [hji]
      exact enrolling
    · rw [phase j hji, pending j hji]
      exact h.enrolling j hj
  accepted j hj := by
    rw [commits] at hj
    rw [phase j (ne_of_mem_of_not_mem hj hi)]
    exact h.accepted j hj
  nodup := by
    rw [commits]
    exact h.nodup
  state := by
    rw [commits, committed]
    exact h.state
  answers := by
    rw [commits, h.answers]
    apply List.map_congr_left
    intro j hj
    rw [phase j (ne_of_mem_of_not_mem hj hi)]
  known := by
    rw [committed, commits]
    exact h.known
  stored := by
    rw [committed, commits]
    exact h.stored

theorem Serialized.commit (h : Serialized D calls signUps d b s) (hi : i ∉ s.commits) {u : User} {d' : Db}
    (index : activeEmails.Maintained (s.perform i (.commit (.done ((signUps i).request.response u)))))
    (pending : s.pending i = [claim u, insertStatement u]) (admits : (signUps i).Admits (calls i) s.committed)
    (enlists : (signUps i).Enlists D (calls i) u) (inserted : Db.insertUser D.engine u s.committed = .ok d') :
    Serialized D calls signUps d b (s.perform i (.commit (.done ((signUps i).request.response u)))) := by
  obtain ⟨-, hfree, -⟩ := (insertable_iff enlists.fields.2.2).mp ⟨d', inserted⟩
  obtain ⟨hid, hemail, hlive⟩ := enlists.fields
  have hview : s.view i = d' := by
    rw [Sessions.view, pending]
    exact insertIn_eq inserted
  have rows : d'.users.rows = s.committed.users.rows ++ [u] := by
    obtain ⟨-, -, users, rows, rfl⟩ := Db.insertUser_ok inserted
    exact rows
  have hstep : step D (signUpInput calls signUps i) (s.committed, b) = (.ok ((signUps i).request.response u), d', b) :=
    SignUp.outcome_ok admits enlists (withEmail_of_not_inUse (hemail ▸ hfree)) inserted
  have hcommits : (s.perform i (.commit (.done ((signUps i).request.response u)))).commits = s.commits ++ [i] := rfl
  have hcommitted : (s.perform i (.commit (.done ((signUps i).request.response u)))).committed = d' := hview
  refine ⟨index, fun j hj => ?_, fun j hj => ?_, ?_, ?_, ?_, ?_, ?_⟩
  · rw [hcommits, List.mem_append, List.mem_singleton, not_or] at hj
    rw [hcommitted, Sessions.phase_perform_ne hj.2, Sessions.pending_perform_ne hj.2]
    refine (h.enrolling j hj.1).grow rows fun k hk => ?_
    have hapart := disjoint_of_locked h.index.locks hj.2 k hk
    rw [pending] at hapart
    simp only [locked, claim, await, insertStatement, List.flatMap_cons, List.flatMap_nil, List.append_nil, List.cons_append,
      List.nil_append, List.mem_cons, List.not_mem_nil, or_false, not_or] at hapart
    exact ⟨hapart.1, hapart.2.1⟩
  · rw [hcommits, List.mem_append, List.mem_singleton] at hj
    by_cases hji : j = i
    · rw [hji]
      exact ⟨_, Sessions.phase_close⟩
    · rw [Sessions.phase_perform_ne hji]
      exact h.accepted j (hj.resolve_right hji)
  · rw [hcommits, List.nodup_append]
    exact ⟨h.nodup, List.nodup_singleton i, fun j hj k hk => by rw [List.mem_singleton.mp hk]; exact ne_of_mem_of_not_mem hj hi⟩
  · rw [hcommits, hcommitted, serially, List.foldl_append]
    change next D _ (serially D calls signUps (d, b) s.commits) = _
    rw [h.state]
    exact congrArg Prod.snd hstep
  · rw [hcommits, serialAnswers, labels_append, List.map_append]
    apply congrArg₂
    · change serialAnswers D calls signUps (d, b) s.commits = _
      rw [h.answers]
      apply List.map_congr_left
      intro j hj
      rw [Sessions.phase_perform_ne (ne_of_mem_of_not_mem hj hi)]
    · change [some (outcome D _ (serially D calls signUps (d, b) s.commits))] = [_]
      rw [h.state]
      have hphase : (s.perform i (.commit (.done ((signUps i).request.response u)))).phase i = .done ((signUps i).request.response u) :=
        Sessions.phase_close
      simp only [hphase, outcome, hstep]
      rfl
  · intro v hv
    rw [hcommitted, rows, List.mem_append, List.mem_singleton] at hv
    rcases hv with hv | rfl
    · rcases h.known v hv with hold | ⟨j, hj, hv'⟩
      · exact Or.inl hold
      · exact Or.inr ⟨j, List.mem_append_left _ hj, hv'⟩
    · exact Or.inr ⟨i, List.mem_append_right _ (List.mem_singleton_self i), hid, hemail⟩
  · intro j hj
    rw [hcommits, List.mem_append, List.mem_singleton] at hj
    rw [hcommitted, rows]
    rcases hj with hj | rfl
    · obtain ⟨v, hv, hv'⟩ := h.stored j hj
      exact ⟨v, List.mem_append_left _ hv, hv'⟩
    · exact ⟨u, List.mem_append_right _ (List.mem_singleton_self u), hlive, hid, hemail⟩

theorem Serialized.step (fresh : ∀ i, ∀ v ∈ d.users.rows, v.id ≠ (calls i).fresh.id)
    (distinct : ∀ i j, (calls i).fresh.id = (calls j).fresh.id → i = j) (h : Serialized D calls signUps d b s) (i : ι) :
    Serialized D calls signUps d b (s.step (accountStatements D calls fun i => (signUps i).request) i) := by
  have index : activeEmails.Maintained (s.step (accountStatements D calls fun i => (signUps i).request) i) :=
    h.index.step fun _ _ _ => AccountPhase.guarded
  by_cases hi : i ∈ s.commits
  · obtain ⟨r, hr⟩ := h.accepted i hi
    have hstay : s.step (accountStatements D calls fun i => (signUps i).request) i = s := by
      rw [Sessions.step, hr]
      rfl
    rw [hstay]
    exact h
  · have new : ∀ v ∈ s.committed.users.rows, v.id ≠ (calls i).fresh.id := by
      intro v hv hid
      rcases h.known v hv with hold | ⟨j, hj, hid', -⟩
      · exact fresh i v hold hid
      · exact hi (distinct j i (hid'.symm.trans hid) ▸ hj)
    unfold Sessions.step at index ⊢
    rcases (h.enrolling i hi).next new with ⟨q, hq, hway⟩ | ⟨w, q, hq, hway⟩ | ⟨e, hq, he⟩ | ⟨u, d', hp, hws, admits, enlists, hd⟩ | hq
    · have hact : accountStatements D calls (fun i => (signUps i).request) i (s.phase i) (s.view i) = .read q := hq
      rw [hact] at index ⊢
      refine h.own hi index rfl rfl (fun j hj => Sessions.phase_perform_ne hj) (fun j hj => Sessions.pending_perform_ne hj) ?_
      simp only [Sessions.perform, Sessions.phase_goTo]
      exact hway
    · have hact : accountStatements D calls (fun i => (signUps i).request) i (s.phase i) (s.view i) = .write w q := hq
      rw [hact] at index ⊢
      cases hb : s.blocked i w.keys with
      | true =>
        rw [Sessions.perform_blocked hb]
        exact h
      | false =>
        refine h.own hi index (Sessions.committed_perform (by simp)) (Sessions.commits_perform (by simp))
          (fun j hj => Sessions.phase_perform_ne hj) (fun j hj => Sessions.pending_perform_ne hj) ?_
        rw [Sessions.phase_perform_write hb, Sessions.pending_perform_write hb]
        exact hway
    · have hact : accountStatements D calls (fun i => (signUps i).request) i (s.phase i) (s.view i) = .rollback (.failed e) := hq
      rw [hact] at index ⊢
      refine h.own hi index rfl rfl (fun j hj => Sessions.phase_perform_ne hj) (fun j hj => Sessions.pending_perform_ne hj) ?_
      simp only [Sessions.perform, Sessions.phase_close, Sessions.pending_close]
      exact .failed he
    · have hact : accountStatements D calls (fun i => (signUps i).request) i (s.phase i) (s.view i) =
          .commit (.done ((signUps i).request.response u)) := by
        rw [hp]
        rfl
      rw [hact] at index ⊢
      exact h.commit hi index hws admits enlists hd
    · have hact : accountStatements D calls (fun i => (signUps i).request) i (s.phase i) (s.view i) = .stop := hq
      rw [hact]
      exact h

/-- The sign-ups that are accepted could have run one after the other, in the order of their commits: the same accounts, and the
same answers. No two of them are for one address, and one that is answered 409 has lost its address to an account from before, or
to one that is accepted. -/
theorem sign_ups_serialize (unique : d.users.Identifies User.live User.email)
    (fresh : ∀ i, ∀ v ∈ d.users.rows, v.id ≠ (calls i).fresh.id) (distinct : ∀ i j, (calls i).fresh.id = (calls j).fresh.id → i = j)
    (b : Blobs) (schedule : List ι) :
    let s := runAccounts D calls (fun i => (signUps i).request) d schedule
    serially D calls signUps (d, b) s.commits = (s.committed, b) ∧
      serialAnswers D calls signUps (d, b) s.commits = s.commits.map (fun i => (s.phase i).answer) ∧
      s.commits.Nodup ∧ (∀ i, i ∈ s.commits ↔ ∃ r, s.phase i = .done r) ∧
      (∀ i ∈ s.commits, ∀ j ∈ s.commits, (signUps i).email = (signUps j).email → i = j) ∧
      ∀ i e, s.phase i = .failed e → e.response.statusCode = 409 →
        InUse d (signUps i).email ∨ ∃ j ∈ s.commits, (signUps j).email = (signUps i).email := by
  intro s
  have h : Serialized D calls signUps d b s :=
    Sessions.play_invariant (fun _ i hs => hs.step fresh distinct i) (serialized_start unique) schedule
  refine ⟨h.state, h.answers, h.nodup, fun i => ⟨h.accepted i, ?_⟩, ?_, ?_⟩
  · rintro ⟨r, hr⟩
    by_contra hi
    have hway := h.enrolling i hi
    rw [hr] at hway
    generalize s.pending i = ws at hway
    cases hway
  · intro i hi j hj hemail
    obtain ⟨v, hv, hlive, hid, hvi⟩ := h.stored i hi
    obtain ⟨v', hv', hlive', hid', hvj⟩ := h.stored j hj
    obtain rfl := h.index.committed v hv hlive v' hv' hlive' (hvi.trans (hemail.trans hvj.symm))
    exact distinct i j (hid.symm.trans hid')
  · intro i e he h409
    have hi : i ∉ s.commits := fun hi => by
      obtain ⟨r, hr⟩ := h.accepted i hi
      rw [hr] at he
      exact absurd he (by simp)
    have hway := h.enrolling i hi
    rw [he] at hway
    generalize s.pending i = ws at hway
    cases hway with
    | failed refused =>
      obtain ⟨v, hv, hlive, hemail⟩ := refused h409
      rcases h.known v hv with hold | ⟨j, hj, -, hemail'⟩
      · exact Or.inl ⟨v, hold, hlive, hemail⟩
      · exact Or.inr ⟨j, hj, hemail'.symm.trans hemail⟩

end Schedules

def rivalSignUps : Bool → SignUp
  | false => .register ⟨"a@b.c", "Passw0rd", "A"⟩
  | true => .register ⟨"a@b.c", "Passw0rd", "B"⟩

def rivalCalls (late : Bool) : Call := Call.sample (if late then 2 else 1) none

/-- Both have found the address free; the second waits for the first, and is refused. -/
theorem sign_ups_serialize_sample :
    ((runAccounts .postgresql rivalCalls (fun i => (rivalSignUps i).request) Db.empty
        [false, true, false, true, false, false, true, true]).committed, fun _ => none) =
      next .postgresql ⟨Call.sample 1 none, .register ⟨"a@b.c", "Passw0rd", "A"⟩⟩ World.initial := by
  have hdistinct : ∀ i j, (rivalCalls i).fresh.id = (rivalCalls j).fresh.id → i = j := by decide +kernel
  have hempty : ∀ v, v ∉ Db.empty.users.rows := by simp [Db.empty, Table.empty]
  have hcommits : (runAccounts .postgresql rivalCalls (fun i => (rivalSignUps i).request) Db.empty
      [false, true, false, true, false, false, true, true]).commits = [false] := by decide +kernel
  have h := (@sign_ups_serialize Bool _ .postgresql rivalCalls rivalSignUps Db.empty (fun x hx => absurd hx (hempty x))
    (fun _ v hv => absurd hv (hempty v)) hdistinct (fun _ => none) [false, true, false, true, false, false, true, true]).1
  rw [hcommits] at h
  exact h.symm

end ProjectManagement
