import ProjectManagement.SingleRedemption

/-!
A password change beside one sign-in or refresh of the same account: it ends every earlier session exactly when the other
request is not under way between the sweep's look at the tokens and the commit of the change, and no login with the old
password comes after a change that has left it good.
-/

namespace ProjectManagement

open Library

variable {D : Deployment} {c : Call} {d b : Db} {u v user : User} {userId : Uuid} {p : ChangePassword} {q : AuthRequest}
  {token : String}

/-! The change: it lists the unrevoked tokens of its user, revokes those rows, and writes the password. -/

def sweep (user : User) (ids : List Uuid) : Write Db RowKey := revokeStatement (fun t => t.userId == user.id) ids

def NewHash (D : Deployment) (c : Call) (p : ChangePassword) (hashed : String) : Prop :=
  D.bcrypt.hashpw p.newPassword.toUTF8 c.fresh.salt = some hashed

inductive Sweeping (D : Deployment) (c : Call) (p : ChangePassword) (user : User) (ids : List Uuid) :
    AuthPhase → List (Write Db RowKey) → Prop
  | listed {hashed : String} (h : NewHash D c p hashed) : Sweeping D c p user ids (.listed user hashed ids) []
  | ended {hashed : String} (h : NewHash D c p hashed) : Sweeping D c p user ids (.ended user hashed) [sweep user ids]
  | unchanged (h : NewHash D c p user.hashedPassword) : Sweeping D c p user ids (.saved user) [sweep user ids]
  | saved {hashed : String} (h : NewHash D c p hashed) :
      Sweeping D c p user ids (.saved user) [sweep user ids, passwordStatement D c user hashed]

inductive Changing (D : Deployment) (c : Call) (p : ChangePassword) (b : Db) : AuthPhase → List (Write Db RowKey) → Prop
  | start : Changing D c p b .start []
  | confirmed {user : User} {hashed : String} (caller : CurrentUser c b user) (h : NewHash D c p hashed) :
      Changing D c p b (.confirmed user hashed) []
  | sweeping {user : User} {phase : AuthPhase} {ws : List (Write Db RowKey)} (caller : CurrentUser c b user)
      (h : Sweeping D c p user (unrevoked (fun t => t.userId == user.id) b) phase ws) : Changing D c p b phase ws
  | failed (e : Raised) : Changing D c p b (.failed e) []

theorem Sweeping.next {ids : List Uuid} {phase : AuthPhase} {ws : List (Write Db RowKey)}
    (h : Sweeping D c p user ids phase ws) :
    (∃ x, AuthPhase.next D c q phase b = .read x ∧ Sweeping D c p user ids x ws) ∨
    (∃ w x, AuthPhase.next D c q phase b = .write w x ∧ Sweeping D c p user ids x (ws ++ [w])) ∨
    (phase = .saved user ∧ AuthPhase.next D c q phase b = .commit (.changed user)) := by
  cases h with
  | listed h => exact Or.inr (Or.inl ⟨_, _, rfl, .ended h⟩)
  | @ended hashed h =>
    by_cases hsame : hashed = user.hashedPassword
    · subst hsame
      exact Or.inl ⟨_, if_pos rfl, .unchanged h⟩
    · exact Or.inr (Or.inl ⟨_, _, if_neg hsame, .saved h⟩)
  | unchanged h => exact Or.inr (Or.inr ⟨rfl, rfl⟩)
  | saved h => exact Or.inr (Or.inr ⟨rfl, rfl⟩)

theorem confirmed_of_read {hashed : String} (h : read (confirmPassword D c p) b = .ok (user, hashed)) :
    CurrentUser c b user ∧ NewHash D c p hashed := by
  obtain ⟨s, hs⟩ := Tx.answer_eq_ok.mp h
  simp only [confirmPassword, Tx.succeeds_bind, succeeds_getCurrentUser, succeeds_validated, Tx.succeeds_refuseIf,
    succeeds_enforcePasswordPolicy, succeeds_hashPassword, Tx.succeeds_pure] at hs
  obtain ⟨v, _, ⟨caller, rfl⟩, _, _, ⟨-, rfl⟩, _, _, ⟨-, rfl⟩, _, _, ⟨-, rfl⟩, hashed', _, ⟨hnew, rfl⟩, he, -⟩ := hs
  obtain ⟨rfl, rfl⟩ := Prod.mk.inj he
  exact ⟨caller, hnew⟩

theorem Changing.next {phase : AuthPhase} {ws : List (Write Db RowKey)} (h : Changing D c p b phase ws) :
    (∃ x vs, Sessions.after ws (AuthPhase.next D c (.changePassword p) phase (ws.foldl (fun d w => w.run d) b)) = some (x, vs) ∧
      Changing D c p b x vs) ∨
    (∃ user, CurrentUser c b user ∧ phase = .saved user ∧
      Sweeping D c p user (unrevoked (fun t => t.userId == user.id) b) phase ws ∧
      AuthPhase.next D c (.changePassword p) phase (ws.foldl (fun d w => w.run d) b) = .commit (.changed user)) ∨
    AuthPhase.next D c (.changePassword p) phase (ws.foldl (fun d w => w.run d) b) = .stop := by
  cases h with
  | start =>
    cases hread : read (confirmPassword D c p) b with
    | error e => exact Or.inl ⟨.failed e, [], by simp [AuthPhase.next, hread, Sessions.after], .failed e⟩
    | ok result =>
      obtain ⟨user, hashed⟩ := result
      obtain ⟨caller, hnew⟩ := confirmed_of_read hread
      exact Or.inl ⟨.confirmed user hashed, [], by simp [AuthPhase.next, hread, Sessions.after], .confirmed caller hnew⟩
  | confirmed caller h => exact Or.inl ⟨_, [], rfl, .sweeping caller (.listed h)⟩
  | sweeping caller h =>
    rcases h.next (q := .changePassword p) (b := ws.foldl (fun d w => w.run d) b) with ⟨x, hx, hway⟩ | ⟨w, x, hx, hway⟩ | ⟨hphase, hx⟩
    · exact Or.inl ⟨x, ws, by rw [hx]; rfl, .sweeping caller hway⟩
    · exact Or.inl ⟨x, ws ++ [w], by rw [hx]; rfl, .sweeping caller hway⟩
    · exact Or.inr (Or.inl ⟨_, caller, hphase, h, hx⟩)
  | failed e => exact Or.inr (Or.inr rfl)

theorem Changing.alone {phase phase' : AuthPhase} {ws vs : List (Write Db RowKey)} (h : Changing D c p b phase ws)
    (ha : Sessions.Alone (AuthPhase.next D c (.changePassword p)) b phase ws phase' vs) : Changing D c p b phase' vs := by
  refine ha.invariant (fun phase ws x us hway hstep => ?_) h
  rcases hway.next with ⟨x', us', hx, hnext⟩ | ⟨user, _, _, _, hx⟩ | hx
  · obtain ⟨rfl, rfl⟩ := Prod.mk.inj (Option.some.inj (hstep.symm.trans hx))
    exact hnext
  · rw [hx] at hstep
    simp [Sessions.after] at hstep
  · rw [hx] at hstep
    simp [Sessions.after] at hstep

theorem Sweeping.alone {ids : List Uuid} {phase phase' : AuthPhase} {ws vs : List (Write Db RowKey)}
    (h : Sweeping D c p user ids phase ws) (ha : Sessions.Alone (AuthPhase.next D c q) b phase ws phase' vs) :
    Sweeping D c p user ids phase' vs := by
  refine ha.invariant_next (fun phase ws hway => ?_) h
  rcases hway.next (q := q) (b := ws.foldl (fun d w => w.run d) b) with hread | hwrite | ⟨-, hcommit⟩
  · exact Or.inl hread
  · exact Or.inr (Or.inl hwrite)
  · exact Or.inr (Or.inr (by rw [hcommit]; rfl))

theorem Sweeping.run {ids : List Uuid} {ws : List (Write Db RowKey)} (h : Sweeping D c p user ids (.saved user) ws) :
    (ws.foldl (fun d w => w.run d) b).refreshTokens =
      RefreshTokenRepository.revokeWhere (fun t => t.userId == user.id && ids.contains t.id) b.refreshTokens ∧
    ∃ hashed, NewHash D c p hashed ∧ (((ws.foldl (fun d w => w.run d) b).users = b.users ∧ hashed = user.hashedPassword) ∨
      (ws.foldl (fun d w => w.run d) b).users = ((passwordStatement D c user hashed).run b).users) := by
  cases h with
  | unchanged h => exact ⟨rfl, _, h, Or.inl ⟨rfl, rfl⟩⟩
  | saved h => exact ⟨rfl, _, h, Or.inr rfl⟩

def AllRevoked (userId : Uuid) (b : Db) : Prop := ∀ t ∈ b.refreshTokens.rows, t.userId = userId → t.revoked = true

theorem Sweeping.allRevoked {ws : List (Write Db RowKey)}
    (h : Sweeping D c p user (unrevoked (fun t => t.userId == user.id) b) (.saved user) ws) :
    AllRevoked user.id (ws.foldl (fun d w => w.run d) b) := by
  intro t ht huser
  rw [h.run.1] at ht
  rcases RefreshTokenRepository.of_mem_revokeWhere ht with ⟨ht, hrevoked⟩ | ⟨t', -, -, rfl⟩
  · by_contra hlive
    have hlisted : t.id ∈ unrevoked (fun t => t.userId == user.id) b :=
      List.mem_map_of_mem (List.mem_filter.mpr ⟨ht, by simp [huser, hlive]⟩)
    exact hlive (hrevoked (by simp [huser, hlisted]))
  · rfl

theorem Sweeping.misses {ids : List Uuid} {ws : List (Write Db RowKey)} (h : Sweeping D c p user ids (.saved user) ws)
    {t : RefreshToken} (ht : t ∈ b.refreshTokens.rows) (hid : t.id ∉ ids) :
    t ∈ (ws.foldl (fun d w => w.run d) b).refreshTokens.rows := by
  rw [h.run.1]
  exact Table.mem_updateWhere.mpr (Or.inl ⟨ht, by simp [hid]⟩)

/-! The order of the phases. -/

def AuthPhase.depth : AuthPhase → ℕ
  | start => 0
  | verified _ => 1
  | found _ => 1
  | replayed _ => 1
  | confirmed _ _ => 1
  | owned _ _ => 2
  | suspected _ _ => 2
  | listed _ _ _ => 2
  | issued _ _ => 3
  | killed => 3
  | ended _ _ => 3
  | succeeded _ _ _ => 4
  | saved _ => 4
  | answered _ => 5
  | signedIn _ => 6
  | changed _ => 6
  | failed _ => 6

theorem finished_of_depth {phase : AuthPhase} (h : 6 ≤ phase.depth) : phase.finished = true := by
  cases phase <;> first | rfl | simp [AuthPhase.depth] at h

theorem AuthAction.depth {phase x : AuthPhase} {a : Action Db RowKey AuthPhase} (h : AuthAction D c q phase a)
    (hx : a.goal = some x) : phase.depth < x.depth := by
  cases h with
  | stop h => simp [Action.goal] at hx
  | fail e h =>
    obtain rfl := Option.some.inj hx
    have hrunning : ¬6 ≤ phase.depth := fun hdepth => by simp [finished_of_depth hdepth] at h
    simpa [AuthPhase.depth] using hrunning
  | _ =>
    obtain rfl := Option.some.inj hx
    simp [AuthPhase.depth]

theorem next_depth {phase x : AuthPhase} (h : (AuthPhase.next D c q phase b).goal = some x) : phase.depth < x.depth :=
  (authAction_next q phase).depth h

/-! The other request, once it has checked what it was given. -/

inductive Issuing (D : Deployment) (c : Call) (userId : Uuid) (b : Db) : AuthPhase → List (Write Db RowKey) → Prop
  | verified {v : User} (hv : v.id = userId) : Issuing D c userId b (.verified v) []
  | granted {v : User} (hv : v.id = userId) :
      Issuing D c userId b (.answered (pairFor D c v)) [issueStatement D c userId c.fresh.familyId]
  | redeeming {r : RefreshToken} {v : User} {phase : AuthPhase} {ws : List (Write Db RowKey)} (hv : v.id = userId)
      (hr : r.id ≠ c.fresh.id) (way : Redeeming D c r v phase ws)
      (owner : phase = .found r → UserRepository.find r.userId b = some v ∧ v.isActive = true) :
      Issuing D c userId b phase ws

def Live (userId : Uuid) (b : Db) : Prop := ∃ t ∈ b.refreshTokens.rows, t.userId = userId ∧ t.revoked = false

theorem Live.not_allRevoked (h : Live userId b) : ¬AllRevoked userId b := by
  obtain ⟨t, ht, huser, hlive⟩ := h
  intro hall
  rw [hall t ht huser] at hlive
  exact absurd hlive (by simp)

def Issued (c : Call) (userId : Uuid) (b : Db) : Prop :=
  ∃ t ∈ b.refreshTokens.rows, t.id = c.fresh.id ∧ t.userId = userId ∧ t.revoked = false

theorem Issued.live (h : Issued c userId b) : Live userId b := by
  obtain ⟨t, ht, -, huser, hlive⟩ := h
  exact ⟨t, ht, huser, hlive⟩

theorem Issuable.issued (h : Issuable D c userId b) (familyId : Uuid) :
    Issued c userId ((issueStatement D c userId familyId).run b) := by
  obtain ⟨ts, hrows, hrun⟩ := h.run_issue familyId
  refine ⟨AuthService.issuedToken D c userId familyId, ?_, rfl, rfl, rfl⟩
  rw [hrun]
  show AuthService.issuedToken D c userId familyId ∈ ts.rows
  rw [hrows]
  exact List.mem_append_right _ (List.mem_singleton_self _)

theorem Issuable.issued_redemption {r : RefreshToken} (h : Issuable D c u.id b) (hr : r.id ≠ c.fresh.id) :
    Issued c u.id ((redemptionWrites D c r u).foldl (fun d w => w.run d) b) := by
  obtain ⟨t, ht, hid, huser, hlive⟩ := h.issued r.familyId
  refine ⟨t, mem_replaceIn.mpr (Or.inl ⟨ht, ?_⟩), hid, huser, hlive⟩
  rw [hid]
  exact hr.symm

theorem Issuing.next (q : AuthRequest) {phase : AuthPhase} {ws : List (Write Db RowKey)} (h : Issuing D c userId b phase ws)
    (hb : Issuable D c userId b) :
    (∃ x vs, Sessions.after ws (AuthPhase.next D c q phase (ws.foldl (fun d w => w.run d) b)) = some (x, vs) ∧
      Issuing D c userId b x vs) ∨
    ∃ pair, AuthPhase.next D c q phase (ws.foldl (fun d w => w.run d) b) = .commit (.signedIn pair) ∧
      Issued c userId (ws.foldl (fun d w => w.run d) b) := by
  cases h with
  | @verified v hv =>
    subst hv
    exact Or.inl ⟨_, _, congrArg (Sessions.after []) (hb.issue_eq _), .granted rfl⟩
  | granted hv => exact Or.inr ⟨_, rfl, hb.issued _⟩
  | @redeeming r v _ _ hv hr way owner =>
    subst hv
    -- only the start leads to `found`
    have hlater : ∀ x, (AuthPhase.next D c q phase (ws.foldl (fun d w => w.run d) b)).goal = some x → x ≠ .found r := by
      rintro x hx rfl
      have hdepth := next_depth hx
      cases way <;> simp [AuthPhase.depth] at hdepth
    rcases way.next q hb owner with ⟨x, hx, hnext⟩ | ⟨w, x, hx, hnext⟩ | ⟨-, hws, hx⟩
    · refine Or.inl ⟨x, ws, congrArg (Sessions.after ws) hx, .redeeming rfl hr hnext fun hfound => ?_⟩
      exact absurd hfound (hlater x (by rw [hx]; rfl))
    · refine Or.inl ⟨x, ws ++ [w], congrArg (Sessions.after ws) hx, .redeeming rfl hr hnext fun hfound => ?_⟩
      exact absurd hfound (hlater x (by rw [hx]; rfl))
    · refine Or.inr ⟨_, hx, ?_⟩
      rw [hws]
      exact hb.issued_redemption hr

theorem Issuing.underway {phase : AuthPhase} {ws : List (Write Db RowKey)} (h : Issuing D c userId b phase ws) :
    0 < phase.depth ∧ phase.finished = false := by
  cases h with
  | verified hv => exact ⟨Nat.zero_lt_succ _, rfl⟩
  | granted hv => exact ⟨Nat.zero_lt_succ _, rfl⟩
  | redeeming hv hr way owner => cases way <;> exact ⟨Nat.zero_lt_succ _, rfl⟩

/-- The owner of the token need not be the same row when the change has been committed meanwhile. -/
theorem Issuing.rebase {b' : Db} {phase : AuthPhase} {ws : List (Write Db RowKey)} (h : Issuing D c userId b phase ws)
    (husers : ∀ v, UserRepository.find v.id b = some v → v.isActive = true →
      ∃ v', UserRepository.find v.id b' = some v' ∧ v'.isActive = true) : Issuing D c userId b' phase ws := by
  cases h with
  | verified hv => exact .verified hv
  | granted hv => exact .granted hv
  | @redeeming r v _ _ hv hr way owner =>
    cases way with
    | found =>
      obtain ⟨hfind, hactive⟩ := owner rfl
      have hid : v.id = r.userId := (UserRepository.find_eq_some.mp hfind).2.2
      rw [← hid] at hfind
      obtain ⟨v', hfind', hactive'⟩ := husers v hfind hactive
      have hid' : v'.id = v.id := (UserRepository.find_eq_some.mp hfind').2.2
      rw [hid] at hfind'
      exact .redeeming (hid'.trans hv) hr .found fun _ => ⟨hfind', hactive'⟩
    | owned => exact .redeeming hv hr .owned (by simp)
    | issued => exact .redeeming hv hr .issued (by simp)
    | succeeded => exact .redeeming hv hr .succeeded (by simp)
    | answered => exact .redeeming hv hr .answered (by simp)

def Grants (D : Deployment) (c : Call) (d : Db) (u : User) : AuthRequest → Prop
  | .login email password => UserRepository.oneWithEmail D email d = .ok (some u) ∧
      verifyPassword D password u.hashedPassword = true ∧ u.isActive = true
  | .refresh token => ∃ r, RefreshTokenRepository.withHash (hashRefreshToken D token) d = [r] ∧ r.revoked = false ∧
      c.now < r.expiresAt ∧ UserRepository.find r.userId d = some u ∧ u.isActive = true
  | .changePassword _ => False

theorem read_authenticate {email password : String} : read (authenticate D email password) b = .ok u ↔
    UserRepository.oneWithEmail D email b = .ok (some u) ∧ verifyPassword D password u.hashedPassword = true ∧
      u.isActive = true := by
  refine Tx.answer_eq_ok.trans ?_
  simp only [authenticate, Tx.succeeds_bind, UserRepository.succeeds_getByEmail, Tx.succeeds_orRaise, Tx.succeeds_refuseIf,
    Tx.succeeds_pure, Bool.not_eq_false]
  constructor
  · rintro ⟨s, o, _, ⟨ho, rfl⟩, v, _, ⟨hv, rfl⟩, _, _, ⟨hactive, rfl⟩, rfl, -⟩
    obtain ⟨rfl, hverified⟩ := Option.filter_eq_some_iff.mp hv
    exact ⟨ho, hverified, hactive⟩
  · rintro ⟨ho, hverified, hactive⟩
    exact ⟨_, some u, _, ⟨ho, rfl⟩, u, _, ⟨Option.filter_eq_some_iff.mpr ⟨rfl, hverified⟩, rfl⟩, (),
      _, ⟨hactive, rfl⟩, rfl, rfl⟩

theorem Grants.first (h : Grants D c d u q) (hd : Issuable D c u.id d) :
    ∃ x, AuthPhase.next D c q .start d = .read x ∧ Issuing D c u.id d x [] := by
  cases q with
  | login email password => exact ⟨_, by simp only [AuthPhase.next, read_authenticate.mpr h], .verified rfl⟩
  | refresh token =>
    obtain ⟨r, hr, hlive, hvalid, howner, hactive⟩ := h
    have hid := (hd.fresh r (RefreshTokenRepository.withHash_eq_singleton hr).1).1
    exact ⟨_, next_start hr hlive hvalid, .redeeming rfl hid .found fun _ => ⟨howner, hactive⟩⟩
  | changePassword p => exact h.elim

theorem Issuing.alone {phase phase' : AuthPhase} {ws vs : List (Write Db RowKey)} (h : Issuing D c userId b phase ws)
    (hb : Issuable D c userId b) (ha : Sessions.Alone (AuthPhase.next D c q) b phase ws phase' vs) :
    Issuing D c userId b phase' vs := by
  refine ha.invariant (fun phase ws x us hway hstep => ?_) h
  rcases hway.next q hb with ⟨y, vs, hy, hnext⟩ | ⟨pair, hy, -⟩
  · obtain ⟨rfl, rfl⟩ := Prod.mk.inj (Option.some.inj (hstep.symm.trans hy))
    exact hnext
  · rw [hy] at hstep
    simp [Sessions.after] at hstep

theorem Grants.alone {phase : AuthPhase} {ws : List (Write Db RowKey)} (h : Grants D c d u q) (hd : Issuable D c u.id d)
    (ha : Sessions.Alone (AuthPhase.next D c q) d .start [] phase ws) :
    (phase = .start ∧ ws = []) ∨ Issuing D c u.id d phase ws := by
  refine ha.invariant (I := fun phase ws => (phase = .start ∧ ws = []) ∨ Issuing D c u.id d phase ws)
    (fun phase ws x us hway hstep => ?_) (Or.inl ⟨rfl, rfl⟩)
  rcases hway with ⟨rfl, rfl⟩ | hway
  · obtain ⟨y, hy, hnext⟩ := h.first hd
    rw [List.foldl_nil, hy] at hstep
    obtain ⟨rfl, rfl⟩ := Prod.mk.inj (Option.some.inj hstep)
    exact Or.inr hnext
  · exact Or.inr (hway.alone hd (.step .refl hstep))

/-! What the change leaves to the other request. -/

section Changed

variable {ids : List Uuid} {ws : List (Write Db RowKey)}

theorem mem_passwordStatement {hashed : String} : v ∈ ((passwordStatement D c user hashed).run b).users.rows ↔
    (v ∈ b.users.rows ∧ v.id ≠ user.id) ∨
      ∃ v' ∈ b.users.rows, v'.id = user.id ∧ { v' with hashedPassword := hashed, updatedAt := c.stamp D } = v := by
  refine (@Table.mem_updateWhere _ _ _ b.users (fun v => v.id == user.id)
    (fun v => { v with hashedPassword := hashed, updatedAt := c.stamp D }) (fun _ => rfl) v).trans ?_
  simp only [beq_eq_false_iff_ne, beq_iff_eq]

theorem Sweeping.accounts (h : Sweeping D c p user ids (.saved user) ws) (hv : v ∈ b.users.rows) :
    ∃ v' ∈ (ws.foldl (fun d w => w.run d) b).users.rows,
      v'.id = v.id ∧ v'.deletedAt = v.deletedAt ∧ v'.isActive = v.isActive := by
  obtain ⟨-, hashed, -, ⟨husers, -⟩ | husers⟩ := h.run (b := b)
  · rw [husers]
    exact ⟨v, hv, rfl, rfl, rfl⟩
  · rw [husers]
    by_cases hid : v.id = user.id
    · exact ⟨_, mem_passwordStatement.mpr (Or.inr ⟨v, hv, hid, rfl⟩), rfl, rfl, rfl⟩
    · exact ⟨v, mem_passwordStatement.mpr (Or.inl ⟨hv, hid⟩), rfl, rfl, rfl⟩

theorem Sweeping.issuable {c' : Call} (h : Sweeping D c p user ids (.saved user) ws) (hb : Issuable D c' userId b) :
    Issuable D c' userId (ws.foldl (fun d w => w.run d) b) := by
  refine ⟨fun t ht => ?_, ?_⟩
  · rw [h.run.1] at ht
    rcases RefreshTokenRepository.of_mem_revokeWhere ht with ⟨ht, -⟩ | ⟨t', ht', -, rfl⟩
    · exact hb.fresh t ht
    · exact hb.fresh t' ht'
  · obtain ⟨v, hv, hid⟩ := hb.user
    obtain ⟨v', hv', hid', -, -⟩ := h.accounts hv
    exact ⟨v', hv', hid'.trans hid⟩

theorem Sweeping.find (h : Sweeping D c p user ids (.saved user) ws) (hv : UserRepository.find v.id b = some v)
    (hactive : v.isActive = true) :
    ∃ v', UserRepository.find v.id (ws.foldl (fun d w => w.run d) b) = some v' ∧ v'.isActive = true := by
  obtain ⟨hmem, hlive, -⟩ := UserRepository.find_eq_some.mp hv
  obtain ⟨v', hv', hid, hdeleted, hactive'⟩ := h.accounts hmem
  refine ⟨v', UserRepository.find_eq_some.mpr ⟨hv', ?_, hid⟩, hactive'.trans hactive⟩
  rw [User.live, hdeleted]
  exact hlive

def Barred (D : Deployment) (c : Call) (q : AuthRequest) (b : Db) : Prop :=
  (∃ e, AuthPhase.next D c q .start b = .rollback (.failed e)) ∨ ∃ familyId, AuthPhase.next D c q .start b = .read (.replayed familyId)

theorem barred_of_spent (h : AllSpent D token b) : Barred D c (.refresh token) b := by
  cases hlook : read (lookUp D token) b with
  | error e => exact Or.inl ⟨e, by simp only [AuthPhase.next, hlook]⟩
  | ok t =>
    obtain ⟨hmem, hhash⟩ := lookUp_mem hlook
    exact Or.inr ⟨t.familyId, by simp only [AuthPhase.next, hlook, h t hmem hhash, if_true]⟩

theorem Rejected.alone {phase phase' : AuthPhase} {ws vs : List (Write Db RowKey)} (hq : Barred D c q b)
    (h : Rejected phase ws) (ha : Sessions.Alone (AuthPhase.next D c q) b phase ws phase' vs) : Rejected phase' vs := by
  refine ha.invariant (fun phase ws x us hway hstep => ?_) h
  cases hway with
  | start =>
    rcases hq with ⟨e, he⟩ | ⟨familyId, hread⟩
    · rw [List.foldl_nil, he] at hstep
      obtain ⟨rfl, rfl⟩ := Prod.mk.inj (Option.some.inj hstep)
      exact .failed e
    · rw [List.foldl_nil, hread] at hstep
      obtain ⟨rfl, rfl⟩ := Prod.mk.inj (Option.some.inj hstep)
      exact .replayed familyId
  | replayed familyId =>
    obtain ⟨rfl, rfl⟩ := Prod.mk.inj (Option.some.inj hstep)
    exact .suspected familyId _
  | suspected familyId ids =>
    obtain ⟨rfl, rfl⟩ := Prod.mk.inj (Option.some.inj hstep)
    exact .killed familyId ids
  | killed familyId ids => simp [AuthPhase.next, Sessions.after] at hstep
  | failed e => simp [AuthPhase.next, Sessions.after] at hstep

theorem Rejected.commit {phase x : AuthPhase} (hq : Barred D c q b) (h : Rejected phase ws)
    (hx : AuthPhase.next D c q phase (ws.foldl (fun d w => w.run d) b) = .commit x) (hb : AllRevoked userId b) :
    AllRevoked userId (ws.foldl (fun d w => w.run d) b) := by
  cases h with
  | start =>
    rw [List.foldl_nil] at hx
    rcases hq with ⟨e, he⟩ | ⟨familyId, hread⟩
    · simp [he] at hx
    · simp [hread] at hx
  | replayed familyId => simp [AuthPhase.next] at hx
  | suspected familyId ids => simp [AuthPhase.next] at hx
  | killed familyId ids =>
    intro t ht huser
    rcases RefreshTokenRepository.of_mem_revokeWhere ht with ⟨ht, -⟩ | ⟨t', -, -, rfl⟩
    · exact hb t ht huser
    · rfl
  | failed e => simp [AuthPhase.next] at hx

def Outdated (D : Deployment) (hashed : String) : AuthRequest → Prop
  | .login _ password => verifyPassword D password hashed = false
  | _ => True

/-- The password of a login is good under the new hash as well: nothing tells the old password from the new one. -/
def StillGood (D : Deployment) (c : Call) (p : ChangePassword) (q : AuthRequest) : Prop :=
  ∃ hashed, NewHash D c p hashed ∧ ¬Outdated D hashed q

theorem Sweeping.spent {r : RefreshToken}
    (h : Sweeping D c p user (unrevoked (fun t => t.userId == user.id) b) (.saved user) ws)
    (hr : RefreshTokenRepository.withHash (hashRefreshToken D token) b = [r]) (huser : r.userId = user.id) :
    AllSpent D token (ws.foldl (fun d w => w.run d) b) := by
  have honly : ∀ t ∈ b.refreshTokens.rows, t.tokenHash = hashRefreshToken D token → t.userId = user.id := by
    intro t ht hhash
    have hmem : t ∈ RefreshTokenRepository.withHash (hashRefreshToken D token) b := List.mem_filter.mpr ⟨ht, by simpa using hhash⟩
    rw [hr, List.mem_singleton] at hmem
    rw [hmem]
    exact huser
  intro t ht hhash
  refine h.allRevoked t ht ?_
  rw [h.run.1] at ht
  rcases RefreshTokenRepository.of_mem_revokeWhere ht with ⟨ht, -⟩ | ⟨t', ht', -, rfl⟩
  · exact honly t ht hhash
  · exact honly t' ht' hhash

theorem Sweeping.login_fails {email password : String} (h : Sweeping D c p user ids (.saved user) ws) (hcaller : user ∈ b.users.rows)
    (hu : UserRepository.withEmail email b = [u]) (hid : user.id = u.id)
    (hverified : verifyPassword D password u.hashedPassword = true)
    (hold : ∀ hashed, NewHash D c p hashed → verifyPassword D password hashed = false) :
    ¬∃ v, read (authenticate D email password) (ws.foldl (fun d w => w.run d) b) = .ok v := by
  rintro ⟨v, hv⟩
  obtain ⟨ho, hverify, -⟩ := read_authenticate.mp hv
  obtain ⟨-, hrows⟩ := UserRepository.oneWithEmail_some.mp ho
  have hmem : u ∈ b.users.rows := by
    have hin : u ∈ UserRepository.withEmail email b := by simp [hu]
    exact (List.mem_filter.mp hin).1
  obtain rfl : user = u := b.users.eq_of_key hcaller hmem hid
  obtain ⟨-, hashed, hnew, ⟨-, hsame⟩ | husers⟩ := h.run (b := b)
  · rw [← hsame, hold hashed hnew] at hverified
    exact absurd hverified (by simp)
  · have hvmem : v ∈ UserRepository.withEmail email (ws.foldl (fun d w => w.run d) b) := by
      rw [hrows]
      exact List.mem_singleton_self v
    obtain ⟨hvmem, hvmail⟩ := List.mem_filter.mp hvmem
    rw [husers] at hvmem
    rcases mem_passwordStatement.mp hvmem with ⟨hvold, hne⟩ | ⟨v', -, -, rfl⟩
    · have hvu : v ∈ UserRepository.withEmail email b := List.mem_filter.mpr ⟨hvold, hvmail⟩
      rw [hu, List.mem_singleton] at hvu
      exact absurd (congrArg User.id hvu) hne
    · rw [hold hashed hnew] at hverify
      exact absurd hverify (by simp)

/-- A login that the new hash lets in like the old one finds its account again. -/
theorem Sweeping.grants {c' : Call} {email password hashed : String} (h : Sweeping D c p user ids (.saved user) ws)
    (hq : Grants D c' b user (.login email password)) (hnew : NewHash D c p hashed)
    (hverified : verifyPassword D password hashed = true) :
    ∃ v, v.id = user.id ∧ Grants D c' (ws.foldl (fun d w => w.run d) b) v (.login email password) := by
  obtain ⟨ho, hold, hactive⟩ := hq
  obtain ⟨text, hrows⟩ := UserRepository.oneWithEmail_some.mp ho
  obtain ⟨-, hashed', hnew', ⟨husers, -⟩ | husers⟩ := h.run (b := b)
  · refine ⟨user, rfl, UserRepository.oneWithEmail_some.mpr ⟨text, ?_⟩, hold, hactive⟩
    rw [UserRepository.withEmail, husers]
    exact hrows
  · obtain rfl : hashed = hashed' := Option.some.inj (hnew.symm.trans hnew')
    have hfound : UserRepository.withEmail email (ws.foldl (fun d w => w.run d) b) =
        [{ user with hashedPassword := hashed, updatedAt := c.stamp D }] := by
      rw [UserRepository.withEmail, husers]
      have hfilter := @Table.filter_updateWhere User Uuid _ b.users (fun v => v.id == user.id)
        (fun v => v.live && v.email == email) (fun v => { v with hashedPassword := hashed, updatedAt := c.stamp D })
        (fun _ => rfl) fun _ => rfl
      rw [show b.users.rows.filter (fun v => v.live && v.email == email) = [user] from hrows, List.map_singleton,
        if_pos (beq_self_eq_true _)] at hfilter
      exact hfilter
    exact ⟨{ user with hashedPassword := hashed, updatedAt := c.stamp D }, rfl,
      UserRepository.oneWithEmail_some.mpr ⟨text, hfound⟩, hverified, hactive⟩

theorem Sweeping.still_granted {c' : Call} (h : Sweeping D c p user ids (.saved user) ws) (hcaller : user ∈ b.users.rows)
    (hid : user.id = u.id) (hq : Grants D c' b u q) (hgood : StillGood D c p q) :
    ∃ v, v.id = u.id ∧ Grants D c' (ws.foldl (fun d w => w.run d) b) v q := by
  obtain ⟨hashed, hnew, hverified⟩ := hgood
  cases q with
  | login email password =>
    obtain ⟨ho, hold, hactive⟩ := hq
    have hmem : u ∈ b.users.rows := by
      have hfound : u ∈ UserRepository.withEmail email b := by
        rw [(UserRepository.oneWithEmail_some.mp ho).2]
        exact List.mem_singleton_self u
      exact (List.mem_filter.mp hfound).1
    obtain rfl : user = u := b.users.eq_of_key hcaller hmem hid
    exact h.grants ⟨ho, hold, hactive⟩ hnew ((Bool.not_eq_false _).mp hverified)
  | _ => exact absurd trivial hverified

theorem Sweeping.barred {c' : Call}
    (h : Sweeping D c p user (unrevoked (fun t => t.userId == user.id) b) (.saved user) ws) (hcaller : user ∈ b.users.rows)
    (hid : user.id = u.id) (hq : Grants D c' b u q) (hold : ∀ hashed, NewHash D c p hashed → Outdated D hashed q) :
    Barred D c' q (ws.foldl (fun d w => w.run d) b) := by
  cases q with
  | login email password =>
    obtain ⟨hu, hverified, -⟩ := hq
    have hfails := h.login_fails hcaller (UserRepository.oneWithEmail_some.mp hu).2 hid hverified hold
    cases hread : read (authenticate D email password) (ws.foldl (fun d w => w.run d) b) with
    | ok v => exact absurd ⟨v, hread⟩ hfails
    | error e => exact Or.inl ⟨e, by simp only [AuthPhase.next, hread]⟩
  | refresh token =>
    obtain ⟨r, hr, -, -, howner, -⟩ := hq
    exact barred_of_spent (h.spent hr ((UserRepository.find_eq_some.mp howner).2.2.symm.trans hid.symm))
  | changePassword p => exact hq.elim

end Changed

/-! Runs. -/

section Runs

variable {calls : Bool → Call}

def alongside (p : ChangePassword) (q : AuthRequest) : Bool → AuthRequest
  | true => .changePassword p
  | false => q

abbrev runChange (D : Deployment) (calls : Bool → Call) (p : ChangePassword) (q : AuthRequest) (d : Db) (schedule : List Bool) :
    AuthSessions Bool := runAuth D calls (alongside p q) d schedule

theorem stop_of_finished (D : Deployment) (calls : Bool → Call) (p : ChangePassword) (q : AuthRequest)
    {s : AuthSessions Bool} {i j : Bool} (hij : i ≠ j) (h : (s.phase i).finished = true) :
    ∀ k, k ≠ j → ∀ d, authStatements D calls (alongside p q) k (s.phase k) d = .stop := by
  intro k hk d
  obtain rfl : k = i := by
    cases k <;> cases i <;> cases j <;> simp at hij hk ⊢
  exact next_of_finished _ h

theorem depth_of_finished {phase : AuthPhase} (h : phase.finished = true) : phase.depth = 6 := by
  cases phase <;> first | rfl | simp [AuthPhase.finished] at h

theorem commit_stops (j : Bool) : ∀ phase d x, authStatements D calls (alongside p q) j phase d = .commit x →
    ∀ d', authStatements D calls (alongside p q) j x d' = .stop := by
  intro phase d x hx d'
  have haction := authAction_next (D := D) (c := calls j) (b := d) (alongside p q j) phase
  rw [show AuthPhase.next D (calls j) (alongside p q j) phase d = .commit x from hx] at haction
  exact next_of_finished _ haction.finished

/-- The change has been committed before the other request has looked anything up. -/
theorem Barred.rest {s : AuthSessions Bool} (h : Barred D (calls false) q s.committed) (hchange : (s.phase true).finished = true)
    (hstart : s.phase false = .start) (hpending : s.pending false = []) (hs : AllRevoked userId s.committed)
    (schedule : List Bool) : AllRevoked userId (s.play (authStatements D calls (alongside p q)) schedule).committed := by
  rcases Sessions.play_last (stop_of_finished D calls p q (by simp) hchange)
    (commit_stops false) schedule with ⟨hcommitted, -⟩ | ⟨phase, ws, x, halone, hx, hcommitted, -⟩
  · rw [hcommitted]
    exact hs
  · rw [hcommitted]
    rw [hstart, hpending] at halone
    exact (Rejected.start.alone h halone).commit h hx hs

/-- It has been committed while the other request was under way. -/
theorem Issuing.rest {s : AuthSessions Bool} (hs : Issuing D (calls false) userId s.committed (s.phase false) (s.pending false))
    (hb : Issuable D (calls false) userId s.committed) (hchange : (s.phase true).finished = true) {schedule : List Bool}
    (hend : ((s.play (authStatements D calls (alongside p q)) schedule).phase false).finished = true) :
    Live userId (s.play (authStatements D calls (alongside p q)) schedule).committed := by
  rcases Sessions.play_last (stop_of_finished D calls p q (by simp) hchange)
    (commit_stops false) schedule with ⟨-, halone⟩ | ⟨phase, ws, x, halone, hx, hcommitted, -⟩
  · rw [(hs.alone hb halone).underway.2] at hend
    exact absurd hend (by simp)
  · rw [hcommitted]
    rcases (hs.alone hb halone).next q hb with ⟨y, vs, hy, -⟩ | ⟨pair, -, hissued⟩
    · rw [show AuthPhase.next D (calls false) q phase _ = .commit x from hx] at hy
      simp [Sessions.after] at hy
    · exact hissued.live

/-- The other request begins after the change, with credentials that are still good. -/
theorem Grants.rest {s : AuthSessions Bool} (hq : Grants D (calls false) s.committed v q)
    (hb : Issuable D (calls false) v.id s.committed) (hchange : (s.phase true).finished = true)
    (hstart : s.phase false = .start) (hpending : s.pending false = []) {schedule : List Bool}
    (hend : ((s.play (authStatements D calls (alongside p q)) schedule).phase false).finished = true) :
    Live v.id (s.play (authStatements D calls (alongside p q)) schedule).committed := by
  rcases Sessions.play_last (stop_of_finished D calls p q (by simp) hchange)
    (commit_stops false) schedule with ⟨-, halone⟩ | ⟨phase, ws, x, halone, hx, hcommitted, -⟩
  · rw [hstart, hpending] at halone
    rcases hq.alone hb halone with ⟨hphase, -⟩ | hway
    · rw [hphase] at hend
      exact absurd hend (by simp [AuthPhase.finished])
    · rw [hway.underway.2] at hend
      exact absurd hend (by simp)
  · rw [hstart, hpending] at halone
    rw [hcommitted]
    rcases hq.alone hb halone with ⟨rfl, rfl⟩ | hway
    · obtain ⟨y, hy, -⟩ := hq.first hb
      rw [List.foldl_nil] at hx
      exact absurd (hy.symm.trans hx) (by simp)
    · rcases hway.next q hb with ⟨y, vs, hy, -⟩ | ⟨pair, -, hissued⟩
      · rw [show AuthPhase.next D (calls false) q phase _ = .commit x from hx] at hy
        simp [Sessions.after] at hy
      · exact hissued.live

/-- The other request has been committed before the change has looked at the tokens. -/
theorem Changing.rest {s : AuthSessions Bool} (hs : Changing D (calls true) p s.committed (s.phase true) (s.pending true))
    (hother : (s.phase false).finished = true) {schedule : List Bool}
    (hend : (s.play (authStatements D calls (alongside p q)) schedule).phase true = .changed u) :
    AllRevoked u.id (s.play (authStatements D calls (alongside p q)) schedule).committed := by
  rcases Sessions.play_last (stop_of_finished D calls p q (by simp) hother)
    (commit_stops true) schedule with ⟨-, halone⟩ | ⟨phase, ws, x, halone, hx, hcommitted, hphase⟩
  · have hway := hs.alone halone
    rw [hend] at hway
    cases hway with
    | sweeping caller h => cases h
  · have hway := hs.alone halone
    rcases hway.next with ⟨y, vs, hy, -⟩ | ⟨user, -, rfl, hsweep, hy⟩ | hy
    · rw [show AuthPhase.next D (calls true) (.changePassword p) phase _ = .commit x from hx] at hy
      simp [Sessions.after] at hy
    · obtain rfl : x = .changed user := Action.commit.inj (hx.symm.trans hy)
      rw [hphase] at hend
      obtain rfl := AuthPhase.changed.inj hend
      rw [hcommitted]
      exact hsweep.allRevoked
    · rw [show AuthPhase.next D (calls true) (.changePassword p) phase _ = .commit x from hx] at hy
      simp at hy

/-- It has been committed between the sweep and the end of the change. -/
theorem Sweeping.rest {s : AuthSessions Bool} {ids : List Uuid}
    (hs : Sweeping D (calls true) p user ids (s.phase true) (s.pending true)) (hissued : Issued (calls false) userId s.committed)
    (hids : (calls false).fresh.id ∉ ids) (hother : (s.phase false).finished = true) {schedule : List Bool}
    (hend : ((s.play (authStatements D calls (alongside p q)) schedule).phase true).finished = true) :
    Live userId (s.play (authStatements D calls (alongside p q)) schedule).committed := by
  rcases Sessions.play_last (stop_of_finished D calls p q (by simp) hother)
    (commit_stops true) schedule with ⟨-, halone⟩ | ⟨phase, ws, x, halone, hx, hcommitted, -⟩
  · have hway := hs.alone (q := .changePassword p) halone
    cases hp : (s.play (authStatements D calls (alongside p q)) schedule).phase true with
    | listed user hashed ids => simp [hp, AuthPhase.finished] at hend
    | ended user hashed => simp [hp, AuthPhase.finished] at hend
    | saved user => simp [hp, AuthPhase.finished] at hend
    | _ =>
      rw [hp] at hway
      cases hway
  · have hway := hs.alone (q := .changePassword p) halone
    rcases hway.next (q := .changePassword p) (b := ws.foldl (fun d w => w.run d) s.committed) with
      ⟨y, hy, -⟩ | ⟨w, y, hy, -⟩ | ⟨hphase, -⟩
    · rw [show AuthPhase.next D (calls true) (.changePassword p) phase _ = .commit x from hx] at hy
      simp at hy
    · rw [show AuthPhase.next D (calls true) (.changePassword p) phase _ = .commit x from hx] at hy
      simp at hy
    · obtain ⟨t, ht, hid, huser, hlive⟩ := hissued
      rw [hcommitted]
      rw [hphase] at hway
      exact ⟨t, hway.misses ht (by rw [hid]; exact hids), huser, hlive⟩

/-! When the other request is under way between the sweep and the end of the change. -/

def AuthPhase.sweeping : AuthPhase → Bool
  | listed _ _ _ => true
  | ended _ _ => true
  | saved _ => true
  | _ => false

/-- At some moment of the run the change has listed the tokens and not committed, and the other request has looked its
credentials up and not committed. -/
def InFlight (D : Deployment) (calls : Bool → Call) (p : ChangePassword) (q : AuthRequest) (d : Db) (schedule : List Bool) : Prop :=
  ∃ before after, schedule = before ++ after ∧ ((runChange D calls p q d before).phase true).sweeping = true ∧
    0 < ((runChange D calls p q d before).phase false).depth ∧ ((runChange D calls p q d before).phase false).finished = false

theorem Sweeping.sweeping {phase : AuthPhase} {ids : List Uuid} {ws : List (Write Db RowKey)} (h : Sweeping D c p user ids phase ws) :
    phase.sweeping = true := by
  cases h <;> rfl

theorem depth_of_sweeping {phase : AuthPhase} (h : phase.sweeping = true) : 2 ≤ phase.depth ∧ phase.finished = false := by
  cases phase <;> simp [AuthPhase.sweeping] at h <;> simp [AuthPhase.depth, AuthPhase.finished]

theorem runChange_step {before after : List Bool} {i : Bool} : runChange D calls p q d (before ++ i :: after) =
    ((runChange D calls p q d before).step (authStatements D calls (alongside p q)) i).play
      (authStatements D calls (alongside p q)) after := Sessions.play_append

theorem depth_play (D : Deployment) (calls : Bool → Call) (p : ChangePassword) (q : AuthRequest)
    (s : AuthSessions Bool) (schedule : List Bool) (i : Bool) :
    (s.phase i).depth ≤ ((s.play (authStatements D calls (alongside p q)) schedule).phase i).depth := by
  refine Sessions.play_phase_invariant (P := fun j (x : AuthPhase) => j = i → (s.phase i).depth ≤ x.depth) ?_ ?_ schedule i rfl
  · intro j x b y hx hy hj
    exact (hx hj).trans (next_depth hy).le
  · rintro j rfl
    exact le_rfl

theorem not_inFlight {before after : List Bool} {i : Bool}
    (hover : ((runChange D calls p q d (before ++ [i])).phase i).finished = true)
    (hearly : ((runChange D calls p q d before).phase false).depth = 0 ∨ ((runChange D calls p q d before).phase true).depth ≤ 1) :
    ¬InFlight D calls p q d (before ++ i :: after) := by
  rintro ⟨before', after', hsplit, hsweeping, hstarted, hrunning⟩
  obtain ⟨hlisted, hchanging⟩ := depth_of_sweeping hsweeping
  rcases List.append_eq_append_iff.mp hsplit with ⟨l, rfl, hl⟩ | ⟨l, rfl, hl⟩
  · cases l with
    | nil =>
      rw [List.append_nil] at hlisted hstarted
      omega
    | cons j l =>
      -- `before'` goes on after the statement that ended `i`
      obtain ⟨rfl, -⟩ := List.cons.inj hl
      have hrun : runChange D calls p q d (before ++ i :: l) =
          (runChange D calls p q d (before ++ [i])).play (authStatements D calls (alongside p q)) l :=
        runChange_step.trans (by rw [runChange_step, Sessions.play_nil])
      have hdepth := depth_play D calls p q (runChange D calls p q d (before ++ [i])) l i
      rw [← hrun, depth_of_finished hover] at hdepth
      have hfinished := finished_of_depth hdepth
      cases i with
      | true => exact absurd (hchanging.symm.trans hfinished) (by simp)
      | false => exact absurd (hrunning.symm.trans hfinished) (by simp)
  · have hrun : runChange D calls p q d (before' ++ l) =
        (runChange D calls p q d before').play (authStatements D calls (alongside p q)) l := Sessions.play_append
    have hfalse := depth_play D calls p q (runChange D calls p q d before') l false
    have htrue := depth_play D calls p q (runChange D calls p q d before') l true
    rw [← hrun] at hfalse htrue
    omega

/-- At some moment of the run the change is over and the other request has not begun. -/
def Afterwards (D : Deployment) (calls : Bool → Call) (p : ChangePassword) (q : AuthRequest) (d : Db) (schedule : List Bool) : Prop :=
  ∃ before after, schedule = before ++ after ∧ ((runChange D calls p q d before).phase true).finished = true ∧
    (runChange D calls p q d before).phase false = .start

theorem not_afterwards {before after : List Bool} (hchanging : ((runChange D calls p q d before).phase true).finished = false)
    (hstarted : 0 < ((runChange D calls p q d before).phase false).depth) : ¬Afterwards D calls p q d (before ++ after) := by
  rintro ⟨before', after', hsplit, hover, hstart⟩
  rcases List.append_eq_append_iff.mp hsplit with ⟨l, rfl, -⟩ | ⟨l, rfl, -⟩
  · have hdepth := depth_play D calls p q (runChange D calls p q d before) l false
    rw [show (runChange D calls p q d before).play (authStatements D calls (alongside p q)) l =
      runChange D calls p q d (before ++ l) from Sessions.play_append.symm, hstart] at hdepth
    exact absurd hstarted (Nat.not_lt.mpr hdepth)
  · have hdepth := depth_play D calls p q (runChange D calls p q d before') l true
    rw [show (runChange D calls p q d before').play (authStatements D calls (alongside p q)) l =
      runChange D calls p q d (before' ++ l) from Sessions.play_append.symm, depth_of_finished hover] at hdepth
    exact absurd (hchanging.symm.trans (finished_of_depth hdepth)) (by simp)

/-- A request of `u`, with good credentials. -/
structure Contending (D : Deployment) (calls : Bool → Call) (p : ChangePassword) (q : AuthRequest) (d : Db) (u : User) : Prop where
  issuable : Issuable D (calls false) u.id d
  grants : Grants D (calls false) d u q

theorem Contending.change_first (h : Contending D calls p q d u) {before after : List Bool} (hid : user.id = u.id)
    (hcaller : CurrentUser (calls true) d user) (hcommitted : (runChange D calls p q d before).committed = d)
    (hphase : (runChange D calls p q d before).phase true = .saved user)
    (hsweep : Sweeping D (calls true) p user (unrevoked (fun t => t.userId == user.id) d) (.saved user)
      ((runChange D calls p q d before).pending true))
    (hway : ((runChange D calls p q d before).phase false = .start ∧ (runChange D calls p q d before).pending false = []) ∨
      Issuing D (calls false) u.id d ((runChange D calls p q d before).phase false) ((runChange D calls p q d before).pending false))
    (hend : ((runChange D calls p q d (before ++ true :: after)).phase false).finished = true) :
    AllRevoked u.id (runChange D calls p q d (before ++ true :: after)).committed ↔
      ¬InFlight D calls p q d (before ++ true :: after) ∧
        (StillGood D (calls true) p q → ¬Afterwards D calls p q d (before ++ true :: after)) := by
  have hstep : (runChange D calls p q d before).step (authStatements D calls (alongside p q)) true =
      (runChange D calls p q d before).perform true (.commit (.changed user)) := by
    rw [Sessions.step, hphase]
    rfl
  have hnow : ((runChange D calls p q d before).perform true (.commit (.changed user))).committed =
      ((runChange D calls p q d before).pending true).foldl (fun d w => w.run d) d := by
    rw [Sessions.perform, Sessions.view, hcommitted]
  have hover : (((runChange D calls p q d before).perform true (.commit (.changed user))).phase true).finished = true := by
    simp only [Sessions.perform]
    rw [Sessions.phase_close]
    rfl
  have hother : ((runChange D calls p q d before).perform true (.commit (.changed user))).phase false =
      (runChange D calls p q d before).phase false := Sessions.phase_perform_ne (by simp)
  have hpending : ((runChange D calls p q d before).perform true (.commit (.changed user))).pending false =
      (runChange D calls p q d before).pending false := Sessions.pending_perform_ne (by simp)
  rw [runChange_step, hstep] at hend ⊢
  rcases hway with ⟨hstart, hnil⟩ | hissuing
  · have hflight : ¬InFlight D calls p q d (before ++ true :: after) := by
      refine not_inFlight ?_ (Or.inl (by rw [hstart]; rfl))
      rw [runChange_step, hstep]
      exact hover
    by_cases hgood : StillGood D (calls true) p q
    · have hafter : Afterwards D calls p q d (before ++ true :: after) := by
        refine ⟨before ++ [true], after, by simp, ?_, ?_⟩
        · rw [runChange_step, hstep]
          exact hover
        · rw [runChange_step, hstep]
          exact hother.trans hstart
      obtain ⟨v, hv, hgrants⟩ := hsweep.still_granted hcaller.mem hid h.grants hgood
      refine iff_of_false (Live.not_allRevoked ?_) fun hends => hends.2 hgood hafter
      rw [← hnow] at hgrants
      rw [← hv]
      refine hgrants.rest ?_ hover (hother.trans hstart) (hpending.trans hnil) hend
      rw [hnow, hv]
      exact hsweep.issuable h.issuable
    · refine iff_of_true (Barred.rest ?_ hover (hother.trans hstart) (hpending.trans hnil) ?_ after)
        ⟨hflight, fun h => absurd h hgood⟩
      · rw [hnow]
        refine hsweep.barred hcaller.mem hid h.grants fun hashed hnew => ?_
        by_contra hold
        exact hgood ⟨hashed, hnew, hold⟩
      · rw [hnow, ← hid]
        exact hsweep.allRevoked
  · refine iff_of_false (Live.not_allRevoked (Issuing.rest ?_ ?_ hover hend)) fun hends => hends.1 ?_
    · rw [hnow, hother, hpending]
      exact hissuing.rebase fun v hv hactive => hsweep.find hv hactive
    · rw [hnow]
      exact hsweep.issuable h.issuable
    · refine ⟨before, true :: after, rfl, ?_, hissuing.underway⟩
      rw [hphase]
      rfl

theorem Issuing.users {phase : AuthPhase} {ws : List (Write Db RowKey)} (h : Issuing D c userId b phase ws) :
    (ws.foldl (fun d w => w.run d) b).users = b.users := by
  refine (SessionWrite.run_all (D := D) (c := c) fun w hw => ?_).1
  cases h with
  | verified hv => simp at hw
  | granted hv =>
    rw [List.mem_singleton] at hw
    rw [hw]
    exact .issue _ _
  | redeeming hv hr way owner =>
    cases way <;> simp only [redemptionWrites, List.mem_cons, List.not_mem_nil, or_false] at hw
    all_goals rcases hw with rfl | rfl <;> first | exact .issue _ _ | exact .replace _ _

theorem Changing.early_or_sweeping {phase : AuthPhase} {ws : List (Write Db RowKey)} (h : Changing D c p b phase ws) :
    phase.depth ≤ 1 ∨ (∃ user, Sweeping D c p user (unrevoked (fun t => t.userId == user.id) b) phase ws) ∨ ∃ e, phase = .failed e := by
  cases h with
  | start => exact Or.inl (by decide)
  | confirmed caller h => exact Or.inl (by simp [AuthPhase.depth])
  | sweeping caller h => exact Or.inr (Or.inl ⟨_, h⟩)
  | failed e => exact Or.inr (Or.inr ⟨e, rfl⟩)

/-- Before its sweep a change has read nothing but the users. -/
theorem Changing.rebased {b' : Db} {phase : AuthPhase} {ws : List (Write Db RowKey)} (h : Changing D c p b phase ws)
    (early : phase.depth ≤ 1) (husers : b'.users = b.users) : Changing D c p b' phase ws := by
  cases h with
  | start => exact .start
  | confirmed caller hnew =>
    refine .confirmed ⟨caller.token, ?_, caller.active⟩ hnew
    rw [UserRepository.find, husers]
    exact caller.found
  | sweeping caller hsweep =>
    have hdepth := (depth_of_sweeping hsweep.sweeping).1
    omega
  | failed e => exact .failed e

theorem Contending.other_first (h : Contending D calls p q d u) {before after : List Bool} {pair : TokenPair}
    (hcommitted : (runChange D calls p q d before).committed = d)
    (hway : Issuing D (calls false) u.id d ((runChange D calls p q d before).phase false)
      ((runChange D calls p q d before).pending false))
    (hissued : Issued (calls false) u.id ((runChange D calls p q d before).view false))
    (hp : AuthPhase.next D (calls false) q ((runChange D calls p q d before).phase false)
      ((runChange D calls p q d before).view false) = .commit (.signedIn pair))
    (hchanging : Changing D (calls true) p d ((runChange D calls p q d before).phase true)
      ((runChange D calls p q d before).pending true))
    (hid : user.id = u.id) (hend : (runChange D calls p q d (before ++ false :: after)).phase true = .changed user) :
    AllRevoked u.id (runChange D calls p q d (before ++ false :: after)).committed ↔
      ¬InFlight D calls p q d (before ++ false :: after) ∧
        (StillGood D (calls true) p q → ¬Afterwards D calls p q d (before ++ false :: after)) := by
  have hstep : (runChange D calls p q d before).step (authStatements D calls (alongside p q)) false =
      (runChange D calls p q d before).perform false (.commit (.signedIn pair)) := congrArg _ hp
  have hnow : ((runChange D calls p q d before).perform false (.commit (.signedIn pair))).committed =
      (runChange D calls p q d before).view false := rfl
  have hover : (((runChange D calls p q d before).perform false (.commit (.signedIn pair))).phase false).finished = true := by
    simp only [Sessions.perform]
    rw [Sessions.phase_close]
    rfl
  have hchange : ((runChange D calls p q d before).perform false (.commit (.signedIn pair))).phase true =
      (runChange D calls p q d before).phase true := Sessions.phase_perform_ne (by simp)
  have hpending : ((runChange D calls p q d before).perform false (.commit (.signedIn pair))).pending true =
      (runChange D calls p q d before).pending true := Sessions.pending_perform_ne (by simp)
  have husers : ((runChange D calls p q d before).view false).users = d.users := by
    rw [Sessions.view, hcommitted]
    exact hway.users
  rw [runChange_step, hstep] at hend ⊢
  rcases hchanging.early_or_sweeping with hearly | ⟨v, hsweep⟩ | ⟨e, hfailed⟩
  · have hrebased := hchanging.rebased hearly husers
    have hchanges : ((runChange D calls p q d before).phase true).finished = false := by
      rw [← Bool.not_eq_true]
      intro hfinished
      have hdepth := depth_of_finished hfinished
      omega
    refine iff_of_true ?_ ⟨not_inFlight ?_ (Or.inr hearly), fun _ => not_afterwards hchanges hway.underway.1⟩
    · rw [← hid]
      refine Changing.rest ?_ hover hend
      rw [hnow, hchange, hpending]
      exact hrebased
    · rw [runChange_step, hstep]
      exact hover
  · have hmissed : (calls false).fresh.id ∉ unrevoked (fun t => t.userId == v.id) d := by
      intro hmem
      obtain ⟨t, ht, htid⟩ := List.mem_map.mp hmem
      exact (h.issuable.fresh t (List.mem_filter.mp ht).1).1 htid
    have hinFlight : InFlight D calls p q d (before ++ false :: after) := ⟨before, false :: after, rfl, hsweep.sweeping, hway.underway⟩
    rw [← hchange, ← hpending] at hsweep
    exact iff_of_false (Live.not_allRevoked (hsweep.rest hissued hmissed hover (by rw [hend]; rfl))) fun hends => hends.1 hinFlight
  · rw [hfailed] at hchange
    have hstopped : (((runChange D calls p q d before).perform false (.commit (.signedIn pair))).play
        (authStatements D calls (alongside p q)) after).phase true = .failed e :=
      Sessions.play_phase_of_stop (fun _ => rfl) hchange
    rw [hend] at hstopped
    simp at hstopped

theorem Contending.before_commit (h : Contending D calls p q d u) {schedule : List Bool}
    (hnone : (runChange D calls p q d schedule).commits = []) : (runChange D calls p q d schedule).committed = d ∧
      (((runChange D calls p q d schedule).phase false = .start ∧ (runChange D calls p q d schedule).pending false = []) ∨
        Issuing D (calls false) u.id d ((runChange D calls p q d schedule).phase false)
          ((runChange D calls p q d schedule).pending false)) ∧
      Changing D (calls true) p d ((runChange D calls p q d schedule).phase true)
        ((runChange D calls p q d schedule).pending true) := by
  obtain ⟨hcommitted, halone⟩ := Sessions.play_alone (s := Sessions.start d AuthPhase.start) hnone
  exact ⟨hcommitted, h.grants.alone h.issuable (halone false), Changing.start.alone (halone true)⟩

/-- A successful password change has ended every session of its user if and only if the other request was never under way
between the sweep and the end of the change and, where its password is good under the new hash too, did not begin after it. -/
theorem sessions_ended_iff (h : Contending D calls p q d u) (schedule : List Bool)
    (hchanged : (runChange D calls p q d schedule).phase true = .changed user) (hid : user.id = u.id)
    (hfinished : ((runChange D calls p q d schedule).phase false).finished = true) :
    AllRevoked u.id (runChange D calls p q d schedule).committed ↔ ¬InFlight D calls p q d schedule ∧
      (StillGood D (calls true) p q → ¬Afterwards D calls p q d schedule) := by
  have hcommits : (runChange D calls p q d schedule).commits ≠ [] := by
    intro hnone
    obtain ⟨-, -, hway⟩ := h.before_commit hnone
    rw [hchanged] at hway
    cases hway with
    | sweeping caller h => cases h
  obtain ⟨before, i, after, x, rfl, hnone, hx⟩ : ∃ before i after x, schedule = before ++ i :: after ∧
      (runChange D calls p q d before).commits = [] ∧ AuthPhase.next D (calls i) (alongside p q i)
        ((runChange D calls p q d before).phase i) ((runChange D calls p q d before).view i) = .commit x :=
    Sessions.exists_first_commit (s := Sessions.start d AuthPhase.start) hcommits
  obtain ⟨hcommitted, hother, hchanging⟩ := h.before_commit hnone
  have hview : (runChange D calls p q d before).view i =
      ((runChange D calls p q d before).pending i).foldl (fun d w => w.run d) d := by
    rw [Sessions.view, hcommitted]
  cases i with
  | true =>
    have hnext := hchanging.next
    rw [← hview, show AuthPhase.next D (calls true) (.changePassword p) _ _ = .commit x from hx] at hnext
    rcases hnext with ⟨y, vs, hy, -⟩ | ⟨v, hcaller, hphase, hsweep, hy⟩ | hy
    · simp [Sessions.after] at hy
    · have hlast : (runChange D calls p q d (before ++ true :: after)).phase true = .changed v := by
        have hstep : (runChange D calls p q d before).step (authStatements D calls (alongside p q)) true =
            (runChange D calls p q d before).perform true (.commit (.changed v)) := by
          rw [← hy]
          exact congrArg _ hx
        have hnow : ((runChange D calls p q d before).perform true (.commit (.changed v))).phase true = .changed v := by
          simp only [Sessions.perform]
          exact Sessions.phase_close
        rw [runChange_step, hstep]
        exact Sessions.play_phase_of_stop (fun _ => rfl) hnow
      obtain rfl := AuthPhase.changed.inj (hlast.symm.trans hchanged)
      rw [hphase] at hsweep
      exact h.change_first hid hcaller hcommitted hphase hsweep hother hfinished
    · simp at hy
  | false =>
    have hway := hother.resolve_left fun hstart => by
      obtain ⟨y, hy, -⟩ := h.grants.first h.issuable
      rw [hview, hstart.1, hstart.2, List.foldl_nil] at hx
      rw [show AuthPhase.next D (calls false) (alongside p q false) .start _ = .read y from hy] at hx
      simp at hx
    have hnext := hway.next q h.issuable
    rw [← hview] at hnext
    rcases hnext with ⟨y, vs, hy, -⟩ | ⟨pair, hy, hissued⟩
    · rw [show AuthPhase.next D (calls false) q _ _ = .commit x from hx] at hy
      simp [Sessions.after] at hy
    · exact h.other_first hcommitted hway hissued hy hchanging hid hchanged

end Runs

/-! A change and a login of the same account. -/

def changers (change : Bool) : Call := Call.sample (if change then 3 else 4) (if change then some 16 else none)

def newPassword : ChangePassword := ⟨"Passw0rd", "N3wPassword"⟩

def oldLogin : AuthRequest := .login "a@b.c" "Passw0rd"

theorem oneLogin_contending : ∃ u, u.id = 16 ∧ Contending .postgresql changers newPassword oldLogin oneLogin.1 u := by
  have hone : (UserRepository.withEmail "a@b.c" oneLogin.1).length = 1 := by decide +kernel
  obtain ⟨u, hu⟩ := List.length_eq_one_iff.mp hone
  have hrow : ∀ u ∈ UserRepository.withEmail "a@b.c" oneLogin.1,
      u.id = 16 ∧ verifyPassword .postgresql "Passw0rd" u.hashedPassword = true ∧ u.isActive = true := by decide +kernel
  have hmem : u ∈ UserRepository.withEmail "a@b.c" oneLogin.1 := by
    rw [hu]
    exact List.mem_singleton_self u
  obtain ⟨hid, hverified⟩ := hrow u hmem
  refine ⟨u, hid, ⟨?_, u, (List.mem_filter.mp hmem).1, rfl⟩, UserRepository.oneWithEmail_some.mpr ⟨by decide +kernel, hu⟩,
    hverified⟩
  decide +kernel

def AuthPhase.changed? : AuthPhase → Option User
  | changed user => some user
  | _ => none

theorem changed_of_some {phase : AuthPhase} {id : Uuid} (h : phase.changed?.map User.id = some id) :
    ∃ user, phase = .changed user ∧ user.id = id := by
  cases phase with
  | changed user => exact ⟨user, rfl, Option.some.inj h⟩
  | _ => simp [AuthPhase.changed?] at h

/-- The login is over before the change looks at the tokens. -/
def earlyLogin : List Bool := [false, false, false, true, true, true, true, true]

theorem sessions_ended_iff_sample : ∃ u : User, u.id = 16 ∧
    (AllRevoked u.id (runChange .postgresql changers newPassword oldLogin oneLogin.1 earlyLogin).committed ↔
      ¬InFlight .postgresql changers newPassword oldLogin oneLogin.1 earlyLogin ∧
        (StillGood .postgresql (changers true) newPassword oldLogin →
          ¬Afterwards .postgresql changers newPassword oldLogin oneLogin.1 earlyLogin)) := by
  obtain ⟨u, hid, h⟩ := oneLogin_contending
  obtain ⟨user, hchanged, huser⟩ : ∃ user,
      (runChange .postgresql changers newPassword oldLogin oneLogin.1 earlyLogin).phase true = .changed user ∧ user.id = 16 :=
    changed_of_some (by decide +kernel)
  exact ⟨u, hid, sessions_ended_iff h earlyLogin hchanged (huser.trans hid.symm) (by decide +kernel)⟩

/-- The login reads the old hash first and commits after the change. -/
def lateLogin : List Bool := [false, true, true, true, true, true, false, false]

/-- Both requests succeed, and the token of the login with the old password stays live. -/
theorem session_outlives_change :
    Reachable .postgresql oneLogin ∧ ∃ u, u.id = 16 ∧ Contending .postgresql changers newPassword oldLogin oneLogin.1 u ∧
      (∃ user, (runChange .postgresql changers newPassword oldLogin oneLogin.1 lateLogin).phase true = .changed user ∧
        user.id = u.id) ∧
      (∃ pair, (runChange .postgresql changers newPassword oldLogin oneLogin.1 lateLogin).phase false = .signedIn pair) ∧
      ¬AllRevoked u.id (runChange .postgresql changers newPassword oldLogin oneLogin.1 lateLogin).committed := by
  obtain ⟨u, hid, h⟩ := oneLogin_contending
  refine ⟨reachable_of_freshRun (by decide +kernel), u, hid, h, ?_, signedIn_of_pair (by decide +kernel), ?_⟩
  · rw [hid]
    exact changed_of_some (by decide +kernel)
  · rw [hid]
    unfold AllRevoked
    decide +kernel

end ProjectManagement
