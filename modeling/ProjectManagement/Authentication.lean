import ProjectManagement.AccountDeletion
import ProjectManagement.Library.Provenance
import ProjectManagement.Library.Raising

/-!
Authentication. An access token is not stored, and a refresh token only under its hash; both are traced back
through the run to the password of the account they stand for.
-/

namespace ProjectManagement

open Library

variable {D : Deployment} {c : Call} {i : Input} {e : Event} {w : World} {d : Db} {a : ApiResponse} {u : User} {es : List Event}
  {token : AccessToken} {request : Request}

/-- A session, known by the hash of a refresh token, and the account it is for. -/
abbrev Handle := String × Uuid

def opened (D : Deployment) (c : Call) (userId : Uuid) : Handle := (hashRefreshToken D c.fresh.refreshToken, userId)

/-- A login that was accepted. -/
inductive PasswordVerified (D : Deployment) : Event → World → Handle → Prop
  | login {c w email password u a} (account : UserRepository.withEmail email w.1 = [u])
      (verified : verifyPassword D password u.hashedPassword = true) (active : u.isActive = true)
      (accepted : outcome D ⟨c, .login email password⟩ w = .ok a) :
      PasswordVerified D (.request ⟨c, .login email password⟩) w (opened D c u.id)

/-- A refresh that was accepted: the token it presents is an unrevoked one of the same account. -/
inductive SecretPresented (D : Deployment) : Event → World → Handle → Handle → Prop
  | refresh {c w token r u a} (presented : RefreshTokenRepository.withHash (hashRefreshToken D token) w.1 = [r])
      (valid : RefreshTokenRepository.isValid c r = true) (owner : UserRepository.find r.userId w.1 = some u)
      (active : u.isActive = true) (accepted : outcome D ⟨c, .refresh token⟩ w = .ok a) :
      SecretPresented D (.request ⟨c, .refresh token⟩) w (hashRefreshToken D token, u.id) (opened D c u.id)

abbrev Vouched (D : Deployment) : List Event → Handle → Prop :=
  Descends (nextWorld D) (PasswordVerified D) (SecretPresented D) World.initial

def HasSession (w : World) (h : Handle) : Prop := ∃ r ∈ w.1.refreshTokens.rows, (r.tokenHash, r.userId) = h

theorem HasSession.step {h : Handle} (has : HasSession (nextWorld D e w) h) :
    HasSession w h ∨ PasswordVerified D e w h ∨ ∃ k, HasSession w k ∧ SecretPresented D e w k h := by
  obtain ⟨r, hr, rfl⟩ := has
  have old : r ∈ w.1.refreshTokens.rows → HasSession w (r.tokenHash, r.userId) := fun hr => ⟨r, hr, rfl⟩
  cases e with
  | seedAdmin c email password fullName =>
    rcases seedAdmin_next (D := D) (w := w) c email password fullName with hw | ⟨_, _, -, -, -, hw⟩
    · rw [hw] at hr
      exact Or.inl (old hr)
    · rw [hw] at hr
      exact Or.inl (old hr)
  | request i =>
    have effect := step_effect D i w
    change r ∈ (next D i w).1.refreshTokens.rows at hr
    generalize ho : outcome D i w = o at effect
    generalize next D i w = w' at effect hr
    cases effect with
    | loggedIn account verified active hash rows =>
      rw [rows, List.mem_append, List.mem_singleton] at hr
      rcases hr with hr | rfl
      · exact Or.inl (old hr)
      · exact Or.inr (Or.inl (.login account verified active ho))
    | @rotated c d b a token s u tokens presented valid owner active hash rows =>
      obtain ⟨hs, hhash⟩ := RefreshTokenRepository.withHash_eq_singleton presented
      rcases Table.of_mem_put hr with rfl | ⟨hr, -⟩
      · exact Or.inl ⟨s, hs, rfl⟩
      · rw [rows, List.mem_append, List.mem_singleton] at hr
        rcases hr with hr | rfl
        · exact Or.inl (old hr)
        · have hid : u.id = s.userId := (UserRepository.find_eq_some.mp owner).2.2
          refine Or.inr (Or.inr ⟨(hashRefreshToken D token, u.id), ⟨s, hs, by rw [hhash, hid]⟩, ?_⟩)
          rw [AuthService.issuedToken, ← hid]
          exact .refresh presented valid owner active ho
    | reuseDetected presented revoked =>
      rcases RefreshTokenRepository.of_mem_revokeWhere hr with ⟨hr, -⟩ | ⟨r', hr', -, rfl⟩
      · exact Or.inl (old hr)
      · exact Or.inl ⟨r', hr', rfl⟩
    | @loggedOut c d b a token s presented live =>
      rcases Table.of_mem_put hr with rfl | ⟨hr, -⟩
      · exact Or.inl ⟨s, (RefreshTokenRepository.withHash_eq_singleton presented).1, rfl⟩
      · exact Or.inl (old hr)
    | passwordChanged caller errors verified policy hash =>
      rcases RefreshTokenRepository.of_mem_revokeWhere hr with ⟨hr, -⟩ | ⟨r', hr', -, rfl⟩
      · exact Or.inl (old hr)
      · exact Or.inl ⟨r', hr', rfl⟩
    | _ => exact Or.inl (old hr)

/-- Every stored session leads back to a password. -/
theorem vouched_of_hasSession {h : Handle} (has : HasSession (reached (nextWorld D) World.initial es) h) : Vouched D es h :=
  Descends.of_reached HasSession (by simp [HasSession, World.initial, Db.empty, Table.empty]) (fun _ _ _ has => has.step) es h has

/-! Where a bearer token comes from. -/

def HandsOut (D : Deployment) (token : AccessToken) (i : Input) (w : World) : Prop :=
  ∃ a, outcome D i w = .ok a ∧ a.data.accessToken? = some token

theorem HandsOut.session (h : HandsOut D token i w) : ∃ u : User, token = createAccessToken D i.call u.id u.role ∧
    (PasswordVerified D (.request i) w (opened D i.call u.id) ∨
      ∃ k, HasSession w k ∧ SecretPresented D (.request i) w k (opened D i.call u.id)) := by
  obtain ⟨a, ho, htoken⟩ := h
  rcases i with ⟨c, request⟩
  have effect := step_effect D ⟨c, request⟩ w
  cases hsign : request.signsIn with
  | false =>
    have hnone := (accessToken_none hsign).outcome (D := D) ho
    rw [hnone] at htoken
    exact absurd htoken (by simp)
  | true =>
    cases request with
    | login email password =>
      obtain ⟨u, haccount, hanswer⟩ := login_answer ho
      rw [hanswer] at htoken
      refine ⟨u, (Option.some.inj htoken).symm, Or.inl ?_⟩
      rw [ho] at effect
      generalize next D ⟨c, .login email password⟩ w = w' at effect
      cases effect with
      | answered reads => exact absurd reads (by simp [Request.reads])
      | loggedIn account verified active hash rows =>
        obtain rfl := List.singleton_inj.mp (haccount.symm.trans account)
        exact .login account verified active ho
    | refresh presentedToken =>
      obtain ⟨r, u, hpresented, howner, hanswer⟩ := refresh_answer ho
      rw [hanswer] at htoken
      refine ⟨u, (Option.some.inj htoken).symm, Or.inr ?_⟩
      rw [ho] at effect
      generalize next D ⟨c, .refresh presentedToken⟩ w = w' at effect
      cases effect with
      | answered reads => exact absurd reads (by simp [Request.reads])
      | rotated presented valid owner active hash rows =>
        obtain rfl := List.singleton_inj.mp (hpresented.symm.trans presented)
        obtain rfl := Option.some.inj (howner.symm.trans owner)
        obtain ⟨hr, hhash⟩ := RefreshTokenRepository.withHash_eq_singleton presented
        refine ⟨(hashRefreshToken D presentedToken, u.id), ⟨r, hr, ?_⟩, .refresh presented valid owner active ho⟩
        rw [hhash, (UserRepository.find_eq_some.mp owner).2.2]
    | _ => simp [Request.signsIn] at hsign

/-! The endpoints behind `CurrentUser`. -/

def Request.isPublic : Request → Bool
  | register _ | login .. | refresh _ | logout _ => true
  | _ => false

theorem handle_protected (h : request.isPublic = false) :
    ∃ f : User → App ApiResponse, handle D c request = getCurrentUser c >>= f := by
  have task {id : Uuid} (f : User × LoadedTask → App ApiResponse) :
      ∃ g : User → App ApiResponse, Routes.accessibleTask c id >>= f = getCurrentUser c >>= g :=
    ⟨_, bind_assoc ..⟩
  cases request with
  | register p => simp [Request.isPublic] at h
  | login email password => simp [Request.isPublic] at h
  | refresh token => simp [Request.isPublic] at h
  | logout token => simp [Request.isPublic] at h
  | listComments id params => exact task _
  | createComment id p => exact task _
  | getTask id => exact task _
  | updateTask id p => exact task _
  | updateTaskStatus id p => exact task _
  | deleteTask id => exact task _
  | listFiles id => exact task _
  | uploadFile id file => exact task _
  | _ => exact ⟨_, rfl⟩

theorem getCurrentUser_raisesIn : (getCurrentUser c).RaisesIn {e | e.response.statusCode = 401} := by
  have check {α : Type} {o : Option α} {e : Raised} (he : e.response.statusCode = 401) :
      (Tx.orRaise o e : App α).RaisesIn {e | e.response.statusCode = 401} := fun _ => Tx.raisesAt_orRaise fun _ => he
  exact (check rfl).bind fun _ => (check rfl).bind fun _ => (check rfl).bind fun _ => (Tx.raisesIn_query _).bind fun _ => check rfl

/-- Without a current user a protected endpoint answers 401 and nothing else happens. -/
theorem unauthenticated (h : request.isPublic = false) (nobody : ∀ u, ¬CurrentUser c w.1 u) :
    (∃ e, outcome D ⟨c, request⟩ w = .error e ∧ e.response.statusCode = 401) ∧ next D ⟨c, request⟩ w = w := by
  obtain ⟨f, hf⟩ := handle_protected (D := D) (c := c) h
  have hraise : ∃ e, (getCurrentUser c).Raises ⟨w.1, w.1, w.2⟩ e ⟨w.1, w.1, w.2⟩ := by
    have hkeep := Tx.ReadOnly.keeps (m := getCurrentUser c) ⟨w.1, w.1, w.2⟩
    rcases hm : getCurrentUser c ⟨w.1, w.1, w.2⟩ with ⟨e | u, t⟩
    · rw [hm] at hkeep
      exact ⟨e, hm.trans (Prod.ext rfl hkeep)⟩
    · exact absurd (succeeds_getCurrentUser.mp hm).1 (nobody u)
  obtain ⟨e, he⟩ := hraise
  have hrun : step D ⟨c, request⟩ w = (.error e, w) := by
    rw [step, hf]
    exact Tx.run_of_raises he.bind
  refine ⟨⟨e, congrArg Prod.fst hrun, getCurrentUser_raisesIn _ _ _ he⟩, congrArg Prod.snd hrun⟩

/-! Authentication, over a whole run. -/

def HandedOut (D : Deployment) (es : List Event) (token : AccessToken) : Prop :=
  ∃ earlier i later, es = earlier ++ .request i :: later ∧ HandsOut D token i (playFrom D World.initial earlier)

/-- Nobody but the application signs tokens. -/
def Unforged (D : Deployment) (es : List Event) (c : Call) : Prop :=
  ∀ token, c.bearer = some token → token.signed = true → HandedOut D es token

/-- The account has shown its password in the run, and the bearer token comes from there, over any number of refreshes. -/
structure Authenticated (D : Deployment) (es : List Event) (c : Call) (userId : Uuid) : Prop where
  issued : ∃ earlier i later role, es = earlier ++ .request i :: later ∧ c.bearer = some (createAccessToken D i.call userId role) ∧
    Vouched D (earlier ++ [.request i]) (opened D i.call userId) ∧
    c.now < i.call.now + (D.settings.accessTokenExpireMinutes * 60 + 1) * 1000000
  password : ∃ earlier i later email password u, es = earlier ++ .request i :: later ∧ i.request = .login email password ∧
    UserRepository.withEmail email (playFrom D World.initial earlier).1 = [u] ∧ u.id = userId ∧
    verifyPassword D password u.hashedPassword = true

theorem HandsOut.vouched {earlier : List Event} (h : HandsOut D token i (playFrom D World.initial earlier)) :
    ∃ u : User, token = createAccessToken D i.call u.id u.role ∧ Vouched D (earlier ++ [.request i]) (opened D i.call u.id) := by
  obtain ⟨u, htoken, verified | ⟨k, has, presented⟩⟩ := h.session
  · exact ⟨u, htoken, .root verified⟩
  · exact ⟨u, htoken, .link (vouched_of_hasSession has) presented⟩

theorem Vouched.password {h : Handle} (vouched : Vouched D es h) : ∃ earlier i later email password u,
    es = earlier ++ .request i :: later ∧ i.request = .login email password ∧
      UserRepository.withEmail email (playFrom D World.initial earlier).1 = [u] ∧ u.id = h.2 ∧
      verifyPassword D password u.hashedPassword = true := by
  have keeps : ∀ e w h h', SecretPresented D e w h h' → h'.2 = h.2 := by
    rintro e w h h' ⟨-, -, -, -, -⟩
    rfl
  obtain ⟨earlier, e, later, h₀, rfl, verified, howner⟩ := vouched.exists_root keeps
  cases verified with
  | login account verified active accepted => exact ⟨earlier, _, later, _, _, _, rfl, rfl, account, howner, verified⟩

/-- A protected endpoint answers 401, or the caller's bearer token leads back to the caller's password. -/
theorem authentication_sound (h : request.isPublic = false) (unforged : Unforged D es c) :
    (∃ e, outcome D ⟨c, request⟩ (playFrom D World.initial es) = .error e ∧ e.response.statusCode = 401) ∨
      ∃ u, CurrentUser c (playFrom D World.initial es).1 u ∧ Authenticated D es c u.id := by
  by_cases caller : ∃ u, CurrentUser c (playFrom D World.initial es).1 u
  · obtain ⟨u, caller⟩ := caller
    refine Or.inr ⟨u, caller, ?_⟩
    obtain ⟨payload, hpayload, hsub⟩ := caller.token
    obtain ⟨token, hbearer, hdecode⟩ := Option.bind_eq_some_iff.mp hpayload
    rw [decodeAccessToken] at hdecode
    split at hdecode
    · next hvalid =>
      obtain rfl := Option.some.inj hdecode
      obtain ⟨earlier, i, later, rfl, handed⟩ := unforged token hbearer hvalid.1
      obtain ⟨v, rfl, vouched⟩ := handed.vouched
      obtain hid : v.id = u.id := Option.some.inj hsub
      rw [hid] at vouched hbearer
      refine ⟨⟨earlier, i, later, v.role, rfl, hbearer, vouched, ?_⟩, ?_⟩
      · have hexp := hvalid.2.1
        simp only [createAccessToken, Time.seconds] at hexp
        apply Nat.lt_of_not_le
        intro hlate
        omega
      · apply Vouched.password (h := opened D i.call u.id)
        exact vouched.mono ⟨later, by simp⟩
    · exact absurd hdecode (by simp)
  · exact Or.inl (unauthenticated h fun u hu => caller ⟨u, hu⟩).1

def registeredAndRefreshed : List Event :=
  sampleRequests 1 [(none, .register ⟨"a@b.c", "Passw0rd", "A"⟩), (none, .login "a@b.c" "Passw0rd"), (none, .refresh "rr")]

def bearerCall : Call :=
  { Call.sample 4 none with bearer := some (createAccessToken .sample (Call.sample 3 none) 16 .employee) }

theorem authentication_sound_sample :
    (outcome .sample ⟨bearerCall, .me⟩ (playFrom .sample World.initial registeredAndRefreshed)).isOk = true ∧
    Authenticated .sample registeredAndRefreshed bearerCall 16 := by
  have granted : (outcome .sample ⟨bearerCall, .me⟩ (playFrom .sample World.initial registeredAndRefreshed)).isOk = true := by
    decide +kernel
  have unforged : Unforged .sample registeredAndRefreshed bearerCall := by
    intro token hbearer _
    obtain rfl := Option.some.inj hbearer
    refine ⟨registeredAndRefreshed.take 2, ⟨Call.sample 3 none, .refresh "rr"⟩, [], rfl, ?_⟩
    obtain ⟨a, ho⟩ := exists_of_isOk (o := outcome .sample ⟨Call.sample 3 none, .refresh "rr"⟩
      (playFrom .sample World.initial (registeredAndRefreshed.take 2))) (by decide +kernel)
    refine ⟨a, ho, ?_⟩
    have hdata : (outcome .sample ⟨Call.sample 3 none, .refresh "rr"⟩
        (playFrom .sample World.initial (registeredAndRefreshed.take 2))).map (fun a => a.data.accessToken?) =
        .ok (some (createAccessToken .sample (Call.sample 3 none) 16 .employee)) := by decide +kernel
    rw [ho] at hdata
    exact Except.ok.inj hdata
  refine ⟨granted, ?_⟩
  rcases authentication_sound (show Request.me.isPublic = false from rfl) unforged with ⟨e, he, -⟩ | ⟨u, caller, authenticated⟩
  · rw [he] at granted
    exact absurd granted (by simp [Except.isOk, Except.toBool])
  · obtain ⟨payload, hpayload, hsub⟩ := caller.token
    obtain rfl : createAccessToken .sample (Call.sample 3 none) 16 .employee = payload := Option.some.inj hpayload
    obtain hid : (16 : Uuid) = u.id := Option.some.inj hsub
    rw [hid]
    exact authenticated

end ProjectManagement
