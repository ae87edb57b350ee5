import ProjectManagement.Tombstones

/-!
The deletion of an account is final: its row stays a tombstone, no other row ever gets its id, and every credential leads to
a live row.
-/

namespace ProjectManagement

open Library

variable {D : Deployment} {c : Call} {i : Input} {w w' : World} {d : Db} {a : ApiResponse} {userId : Uuid}
  {email password token : String}

def Deleted (d : Db) (userId : Uuid) : Prop := ∃ u ∈ d.users.rows, u.id = userId ∧ u.live = false

theorem Deleted.id_ne {u : User} (h : Deleted d userId) (hu : u ∈ d.users.rows) (live : u.live = true) : u.id ≠ userId := by
  rintro hid
  obtain ⟨v, hv, hvid, dead⟩ := h
  rw [d.users.eq_of_key hu hv (hid.trans hvid.symm), dead] at live
  exact absurd live (by simp)

theorem Deleted.find_ne {u : User} {id : Uuid} (h : Deleted d userId) (hu : UserRepository.find id d = some u) : u.id ≠ userId := by
  obtain ⟨hmem, live, -⟩ := UserRepository.find_eq_some.mp hu
  exact h.id_ne hmem live

theorem Deleted.withEmail_ne {u : User} (h : Deleted d userId) (hu : UserRepository.withEmail email d = [u]) : u.id ≠ userId := by
  have hmem : u ∈ UserRepository.withEmail email d := by
    rw [hu]
    exact List.mem_singleton_self u
  have live := UserRepository.Returns.live (D := .sample) (.getByEmail hmem)
  exact h.id_ne (List.mem_filter.mp hmem).1 live

/-! The access tokens a response carries. -/

def Data.accessToken? : Data → Option AccessToken
  | login accessToken _ _ => some accessToken
  | tokens pair => some pair.accessToken
  | _ => Option.none

def Answers (m : App ApiResponse) (P : ApiResponse → Prop) : Prop := ∀ s a t, m.Succeeds s a t → P a

theorem Answers.pure {P : ApiResponse → Prop} (h : P a) : Answers (Pure.pure a) P := by
  intro s b t hb
  obtain ⟨rfl, -⟩ := Tx.succeeds_pure.mp hb
  exact h

theorem Answers.bind {α : Type} {m : App α} {f : α → App ApiResponse} {P : ApiResponse → Prop} (h : ∀ x, Answers (f x) P) :
    Answers (m >>= f) P := by
  intro s b t hb
  obtain ⟨x, u, -, hf⟩ := Tx.succeeds_bind.mp hb
  exact h x u b t hf

theorem Answers.outcome {P : ApiResponse → Prop} (h : Answers (handle D i.call i.request) P) (ha : outcome D i w = .ok a) : P a := by
  obtain ⟨t, ht, -⟩ := succeeds_of_outcome ha
  exact h _ a t ht

def Request.signsIn : Request → Bool
  | .login .. => true
  | .refresh _ => true
  | _ => false

/-- Only a login and a refresh hand out access tokens. -/
theorem accessToken_none {request : Request} (h : request.signsIn = false) :
    Answers (handle D c request) fun a => a.data.accessToken? = none := by
  have detail : ∀ message r, Answers (Routes.projectDetail message r) fun a => a.data.accessToken? = none :=
    fun message r => .bind fun _ => .pure rfl
  cases request with
  | login email password => simp [Request.signsIn] at h
  | refresh token => simp [Request.signsIn] at h
  | register p => exact .bind fun _ => .bind fun _ => .pure rfl
  | logout token => exact .bind fun _ => .pure rfl
  | me => exact .bind fun _ => .pure rfl
  | changePassword p => exact .bind fun _ => .bind fun _ => .bind fun _ => .pure rfl
  | listUsers params => exact .bind fun _ => .bind fun _ => .bind fun _ => .bind fun _ => .pure rfl
  | createUser p => exact .bind fun _ => .bind fun _ => .bind fun _ => .bind fun _ => .pure rfl
  | getUser id => exact .bind fun _ => .bind fun _ => .pure rfl
  | updateUser id p => exact .bind fun _ => .bind fun _ => .bind fun _ => .pure rfl
  | updateRole id p => exact .bind fun _ => .bind fun _ => .bind fun _ => .pure rfl
  | deleteUser id => exact .bind fun _ => .bind fun _ => .bind fun _ => .pure rfl
  | listProjects params => exact .bind fun _ => .bind fun _ => .bind fun _ => .pure rfl
  | createProject p => exact .bind fun _ => .bind fun _ => .bind fun _ => .bind fun _ => .pure rfl
  | getProject id => exact .bind fun _ => .bind fun _ => .bind fun r => detail none r
  | updateProject id p =>
    exact .bind fun _ => .bind fun _ => .bind fun _ => .bind fun r => detail (some "Project updated") r
  | deleteProject id => exact .bind fun _ => .bind fun _ => .bind fun _ => .pure rfl
  | addMember id p => exact .bind fun _ => .bind fun _ => .bind fun _ => .bind fun _ => .pure rfl
  | removeMember id userId => exact .bind fun _ => .bind fun _ => .bind fun _ => .pure rfl
  | listProjectTasks id params => exact .bind fun _ => .bind fun _ => .bind fun _ => .bind fun _ => .pure rfl
  | kanbanBoard id => exact .bind fun _ => .bind fun _ => .bind fun _ => .pure rfl
  | createTask p => exact .bind fun _ => .bind fun _ => .bind fun _ => .bind fun _ => .bind fun _ => .pure rfl
  | getTask id => exact .bind fun _ => .pure rfl
  | updateTask id p => exact .bind fun _ => .bind fun _ => .bind fun _ => .pure rfl
  | updateTaskStatus id p => exact .bind fun _ => .bind fun _ => .pure rfl
  | deleteTask id => exact .bind fun _ => .bind fun _ => .pure rfl
  | listComments id params => exact .bind fun _ => .bind fun _ => .bind fun _ => .bind fun _ => .pure rfl
  | createComment id p => exact .bind fun _ => .bind fun _ => .bind fun _ => .bind fun _ => .pure rfl
  | updateComment id p => exact .bind fun _ => .bind fun _ => .bind fun _ => .bind fun _ => .bind fun _ => .pure rfl
  | deleteComment id => exact .bind fun _ => .bind fun _ => .bind fun _ => .pure rfl
  | listFiles id => exact .bind fun _ => .bind fun _ => .bind fun _ => .pure rfl
  | uploadFile id file => exact .bind fun _ => .bind fun _ => .bind fun _ => .pure rfl
  | downloadFile id => exact .bind fun _ => .bind fun _ => .bind fun _ => .bind fun _ => .pure rfl
  | listNotifications params => exact .bind fun _ => .bind fun _ => .bind fun _ => .pure rfl
  | markRead id => exact .bind fun _ => .bind fun _ => .pure rfl
  | markAllRead => exact .bind fun _ => .bind fun _ => .pure rfl
  | dashboard => exact .bind fun _ => .bind fun _ => .bind fun _ => .pure rfl
  | projectAnalytics id => exact .bind fun _ => .bind fun _ => .bind fun _ => .pure rfl

theorem login_answer (h : outcome D ⟨c, .login email password⟩ w = .ok a) : ∃ u, UserRepository.withEmail email w.1 = [u] ∧
    a.data = .login (createAccessToken D c u.id u.role) (generateRefreshToken c) (UserOut.modelValidate u) := by
  obtain ⟨t, ht, -⟩ := succeeds_of_outcome h
  simp only [handle, Routes.login, AuthService.login, AuthService.issuePair, Tx.succeeds_bind, succeeds_validated,
    UserRepository.succeeds_getByEmail, Tx.succeeds_orRaise, Tx.succeeds_pure] at ht
  obtain ⟨_, _, ⟨-, rfl⟩, r, _, ⟨o, _, ⟨ho, rfl⟩, u, _, ⟨hu, rfl⟩, _, _, -, pair, _, ⟨_, _, -, rfl, -⟩, rfl, -⟩, rfl, -⟩ := ht
  obtain ⟨rfl, -⟩ := Option.filter_eq_some_iff.mp hu
  exact ⟨u, (UserRepository.oneWithEmail_some.mp ho).2, rfl⟩

theorem refresh_answer (h : outcome D ⟨c, .refresh token⟩ w = .ok a) :
    ∃ r u, RefreshTokenRepository.withHash (hashRefreshToken D token) w.1 = [r] ∧
      UserRepository.find r.userId w.1 = some u ∧
      a.data = .tokens ⟨createAccessToken D c u.id u.role, generateRefreshToken c⟩ := by
  have hrun : (Routes.refresh D c token).run w = (.ok a, next D ⟨c, .refresh token⟩ w) := Prod.ext h rfl
  rw [Routes.refresh_run] at hrun
  split at hrun
  · simp at hrun
  · simp at hrun
  · rename_i r hr
    split at hrun
    · simp at hrun
    · obtain ⟨t, ht, -⟩ := Tx.run_ok.mp hrun
      simp only [Routes.refreshed, AuthService.rotate, AuthService.issuePair, Tx.succeeds_bind, UserRepository.succeeds_get,
        Tx.succeeds_refuseIf, Tx.succeeds_orRaise, Tx.succeeds_pure] at ht
      obtain ⟨pair, _, ⟨_, _, ⟨-, rfl⟩, o, _, ⟨rfl, rfl⟩, u, _, ⟨hu, rfl⟩, pair', _, ⟨_, _, -, rfl, -⟩, _, _, -, _, _, -,
        rfl, -⟩, rfl, -⟩ := ht
      obtain ⟨hfind, -⟩ := Option.filter_eq_some_iff.mp hu
      exact ⟨r, u, scalarOneOrNone_some.mp hr, hfind, rfl⟩

/-- No credential of the account works, and it is given no new one. -/
structure Final (D : Deployment) (userId : Uuid) (w : World) : Prop where
  access : ∀ c token, c.bearer = some token → token.sub = some userId → ∃ e, (getCurrentUser c).answer w = .error e
  refresh : ∀ c token a, outcome D ⟨c, .refresh token⟩ w = .ok a →
    ∀ r ∈ w.1.refreshTokens.rows, r.tokenHash = hashRefreshToken D token → r.userId ≠ userId
  login : ∀ c email password a, outcome D ⟨c, .login email password⟩ w = .ok a →
    ∀ accessToken refreshToken user, a.data = .login accessToken refreshToken user → user.id ≠ userId
  issued : ∀ i a token, outcome D i w = .ok a → a.data.accessToken? = some token → token.sub ≠ some userId
  stored : ∀ i, ∀ r ∈ (next D i w).1.refreshTokens.rows, r.userId = userId → ∃ r' ∈ w.1.refreshTokens.rows, r'.id = r.id

theorem Deleted.access (h : Deleted w.1 userId) {t : AccessToken} (hb : c.bearer = some t) (hs : t.sub = some userId) :
    ∃ e, (getCurrentUser c).answer w = .error e := by
  cases ho : (getCurrentUser c).answer w with
  | error e => exact ⟨e, rfl⟩
  | ok u =>
    obtain ⟨t', ht'⟩ := Tx.answer_eq_ok.mp ho
    obtain ⟨caller, -⟩ := succeeds_getCurrentUser.mp ht'
    obtain ⟨payload, hp, hsub⟩ := caller.token
    rw [hb, Option.bind_some, decodeAccessToken] at hp
    split at hp
    · obtain rfl := Option.some.inj hp
      exact absurd (Option.some.inj (hsub.symm.trans hs)) (h.find_ne caller.found)
    · simp at hp

theorem Deleted.stored (h : Deleted w.1 userId) {r : RefreshToken} (hr : r ∈ (next D i w).1.refreshTokens.rows)
    (huser : r.userId = userId) : ∃ r' ∈ w.1.refreshTokens.rows, r'.id = r.id := by
  have effect := step_effect D i w
  generalize outcome D i w = o at effect
  generalize next D i w = w' at effect hr
  cases effect with
  | loggedIn account verified active hash rows =>
    rw [rows, List.mem_append, List.mem_singleton] at hr
    rcases hr with hr | rfl
    · exact ⟨r, hr, rfl⟩
    · exact absurd huser (h.withEmail_ne account)
  | @rotated c d b a token s u tokens presented valid owner active hash rows =>
    obtain ⟨hs, -⟩ := RefreshTokenRepository.withHash_eq_singleton presented
    rcases Table.of_mem_put hr with rfl | ⟨hr, -⟩
    · exact ⟨s, hs, rfl⟩
    · rw [rows, List.mem_append, List.mem_singleton] at hr
      rcases hr with hr | rfl
      · exact ⟨r, hr, rfl⟩
      · have hid : u.id = s.userId := (UserRepository.find_eq_some.mp owner).2.2
        exact absurd (hid.trans huser) (h.find_ne owner)
  | reuseDetected presented revoked =>
    rcases RefreshTokenRepository.of_mem_revokeWhere hr with ⟨hr, -⟩ | ⟨r', hr', -, rfl⟩
    · exact ⟨r, hr, rfl⟩
    · exact ⟨r', hr', rfl⟩
  | @loggedOut c d b a token s presented live =>
    rcases Table.of_mem_put hr with rfl | ⟨hr, -⟩
    · exact ⟨s, (RefreshTokenRepository.withHash_eq_singleton presented).1, rfl⟩
    · exact ⟨r, hr, rfl⟩
  | passwordChanged caller errors verified policy hash =>
    rcases RefreshTokenRepository.of_mem_revokeWhere hr with ⟨hr, -⟩ | ⟨r', hr', -, rfl⟩
    · exact ⟨r, hr, rfl⟩
    · exact ⟨r', hr', rfl⟩
  | _ => exact ⟨r, hr, rfl⟩

theorem Deleted.final (h : Deleted w.1 userId) : Final D userId w where
  access c token hb hs := h.access hb hs
  refresh c token a ha r hr hhash := by
    obtain ⟨s, u, hpresented, howner, -⟩ := refresh_answer ha
    have hmem : r ∈ RefreshTokenRepository.withHash (hashRefreshToken D token) w.1 :=
      List.mem_filter.mpr ⟨hr, by simpa using hhash⟩
    rw [hpresented, List.mem_singleton] at hmem
    rw [hmem, ← (UserRepository.find_eq_some.mp howner).2.2]
    exact h.find_ne howner
  login c email password a ha accessToken refreshToken user hdata := by
    obtain ⟨u, haccount, hanswer⟩ := login_answer ha
    rw [hanswer] at hdata
    obtain ⟨-, -, rfl⟩ := Data.login.inj hdata
    exact h.withEmail_ne haccount
  issued i a token ha htoken := by
    rcases i with ⟨c, request⟩
    cases hsign : request.signsIn with
    | false =>
      have hnone := (accessToken_none hsign).outcome (D := D) ha
      rw [hnone] at htoken
      simp at htoken
    | true =>
      cases request with
      | login email password =>
        obtain ⟨u, haccount, hanswer⟩ := login_answer ha
        rw [hanswer] at htoken
        obtain rfl := Option.some.inj htoken
        exact fun hsub => h.withEmail_ne haccount (Option.some.inj hsub)
      | refresh token =>
        obtain ⟨s, u, -, howner, hanswer⟩ := refresh_answer ha
        rw [hanswer] at htoken
        obtain rfl := Option.some.inj htoken
        exact fun hsub => h.find_ne howner (Option.some.inj hsub)
      | _ => simp [Request.signsIn] at hsign
  stored i r hr huser := h.stored hr huser

theorem deleted_of_deleteUser (h : outcome D ⟨c, .deleteUser userId⟩ w = .ok a) :
    Deleted (next D ⟨c, .deleteUser userId⟩ w).1 userId := by
  have effect := step_effect D ⟨c, .deleteUser userId⟩ w
  rw [h] at effect
  generalize next D ⟨c, .deleteUser userId⟩ w = w' at effect ⊢
  cases effect with
  | answered reads => exact absurd reads (by simp [Request.reads])
  | @userDeleted _ d b _ _ actor u caller admin other found =>
    obtain ⟨hu, live, rfl⟩ := UserRepository.find_eq_some.mp found
    have hne : { u with deletedAt := some c.now } ≠ u := by
      intro heq
      have hdead : ({ u with deletedAt := some c.now } : User).live = true := by
        rw [heq]
        exact live
      exact absurd hdead (by simp [User.live])
    rw [afterFlush_of_ne hne]
    exact ⟨_, Table.mem_put_self hu rfl, rfl, rfl⟩

theorem Execution.deleted {ok : Event → World → Prop} {es : List Event} (run : Execution D ok w es w')
    (h : Deleted w.1 userId) : Deleted w'.1 userId := by
  obtain ⟨u, hu, hid, dead⟩ := h
  exact ⟨u, run.preserved.users.mem hu dead, hid, dead⟩

/-- Once `delete_user` has succeeded, no later state accepts or issues a credential of the account. -/
theorem deletion_final {ok : Event → World → Prop} {es : List Event} (h : outcome D ⟨c, .deleteUser userId⟩ w = .ok a)
    (run : Execution D ok (next D ⟨c, .deleteUser userId⟩ w) es w') : Final D userId w' :=
  (run.deleted (deleted_of_deleteUser h)).final

def reRegistered : World × List Event :=
  (playFrom .sample World.initial (oneTask ++ sampleRequests 4
    [(none, .register ⟨"a@b.c", "Passw0rd", "A"⟩), (none, .login "a@b.c" "Passw0rd")]),
    sampleRequests 7 [(none, .register ⟨"a@b.c", "Passw0rd", "A"⟩)])

theorem deletion_final_sample : Reachable .sample reRegistered.1 ∧
    ∃ w', Execution .sample (fun _ _ => True) (next .sample ⟨Call.sample 6 (some 16), .deleteUser 64⟩ reRegistered.1)
      reRegistered.2 w' ∧ Final .sample 64 w' := by
  refine ⟨reachable_of_freshRun (by decide +kernel), _, .single trivial, ?_⟩
  obtain ⟨a, ha⟩ := exists_of_isOk (o := outcome .sample ⟨Call.sample 6 (some 16), .deleteUser 64⟩ reRegistered.1)
    (by decide +kernel)
  have run : Execution .sample (fun _ _ => True) (next .sample ⟨Call.sample 6 (some 16), .deleteUser 64⟩ reRegistered.1)
    reRegistered.2 _ := .single trivial
  exact deletion_final ha run

end ProjectManagement
