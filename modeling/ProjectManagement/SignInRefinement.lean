import ProjectManagement.Raises
import ProjectManagement.Registration
import ProjectManagement.SignInStore

/-! Every request is a move of the store of sign-ins, and a refresh is answered by what the store shows. -/

namespace ProjectManagement

open Library RefreshTokenRepository

variable {D : Deployment} {c : Call} {i : Input} {w w' : World} {a : ApiResponse} {token email password : String}
  {r : RefreshToken}

def tokenExpiry (D : Deployment) (c : Call) : Time := c.now + D.settings.refreshTokenExpireDays * 86400 * 1000000

/-- What a request and its answer mean for the sign-ins. -/
def tokenMove (D : Deployment) : Input → Outcome → TokenMove
  | ⟨c, .login _ _⟩, .ok a =>
    match a.data with
    | .login _ refreshToken user =>
      .opened c.fresh.familyId user.id (hashRefreshToken D refreshToken) (tokenExpiry D c)
    | _ => .idle
  | ⟨c, .refresh token⟩, .ok a =>
    match a.data with
    | .tokens pair =>
      .redeemed c.now (hashRefreshToken D token) (hashRefreshToken D pair.refreshToken) (tokenExpiry D c)
    | _ => .idle
  | ⟨_, .refresh token⟩, .error e =>
    if e = .app AuthService.reuseDetected then .replayed (hashRefreshToken D token) else .idle
  | ⟨_, .logout token⟩, .ok _ => .closed (hashRefreshToken D token)
  | ⟨c, .changePassword _⟩, .ok _ => (c.bearer.bind AccessToken.sub).elim .idle .expelled
  | _, _ => .idle

def eventMove (D : Deployment) (e : Event) (w : World) : TokenMove :=
  match e with
  | .request i => tokenMove D i (outcome D i w)
  | .seedAdmin .. => .idle

def Moves (D : Deployment) (e : Event) (w : World) : Prop :=
  (eventMove D e w).Enabled (signIns w.1.refreshTokens) ∧
    signIns (nextWorld D e w).1.refreshTokens = (eventMove D e w).apply (signIns w.1.refreshTokens)

/-- No unused secret, no row with its hash. -/
theorem unused_of_rows {ts : Table RefreshToken} {k : String} (h : ∀ t ∈ ts.rows, t.tokenHash ≠ k) : (signIns ts).Unused k := by
  intro f x hx hk
  obtain ⟨t, ht, -, hkt⟩ := row_of_secrets hx hk
  exact h t ht hkt

theorem signIns_none_of_rows {ts : Table RefreshToken} {f : Uuid} (h : ∀ t ∈ ts.rows, t.familyId ≠ f) : signIns ts f = none := by
  rw [signIns, signIn_eq_none, family, List.filter_eq_nil_iff]
  exact fun t ht => by simpa using h t ht

theorem refreshed_raises : (Routes.refreshed D c r).RaisesIn {e | e ≠ .app AuthService.reuseDetected} := by
  refine .bind ?_ fun pair => Tx.raisesIn_pure _
  refine .bind (fun s => Tx.raisesAt_refuseIf fun _ => by simp [unauthorizedError, AuthService.reuseDetected]) fun _ => ?_
  refine .bind (Tx.raisesIn_query _) fun owner => ?_
  refine .bind (fun s => Tx.raisesAt_orRaise fun _ => by simp [unauthorizedError, AuthService.reuseDetected]) fun user => ?_
  refine .bind (.bind (fun s => Tx.raisesAt_execute fun e he => ?_) fun _ => Tx.raisesIn_pure _) fun pair => ?_
  · rw [Db.insertRefreshToken_error he]
    simp
  · refine .bind (fun s => Tx.raisesAt_select fun e he => ?_) fun successor => ?_
    · rw [(scalarOneOrNone_error he).1]
      simp
    · exact .bind (fun s => Tx.raisesAt_execute (by simp)) fun _ => Tx.raisesIn_pure _

/-! The requests that move the store, one lemma for each. -/

theorem login_moves (fresh : FreshFamily (.request ⟨c, .login email password⟩) w) :
    Moves D (.request ⟨c, .login email password⟩) w := by
  have effect := step_effect D ⟨c, .login email password⟩ w
  simp only [Moves, eventMove, nextWorld]
  cases ho : outcome D ⟨c, .login email password⟩ w with
  | error e =>
    rw [ho] at effect
    generalize next D ⟨c, .login email password⟩ w = w' at effect ⊢
    cases effect with
    | rejected => exact ⟨trivial, rfl⟩
  | ok a =>
    obtain ⟨u, account, hdata⟩ := login_answer ho
    rw [ho] at effect
    simp only [tokenMove, hdata]
    generalize next D ⟨c, .login email password⟩ w = w' at effect ⊢
    cases effect with
    | answered reads => exact absurd reads (by simp [Request.reads])
    | @loggedIn c d b a email password u' tokens account' verified active hash rows =>
      obtain rfl : u = u' := List.singleton_inj.mp (account.symm.trans account')
      refine ⟨⟨signIns_none_of_rows fresh, unused_of_rows hash⟩, ?_⟩
      exact signIns_issued rows fresh rfl

section Moves

variable (inv : FamilyInv w.1.refreshTokens)

include inv

theorem refresh_moves : Moves D (.request ⟨c, .refresh token⟩) w := by
  have hstep : step D ⟨c, .refresh token⟩ w = _ := Routes.refresh_run
  simp only [Moves, eventMove, nextWorld, outcome, next]
  rw [hstep]
  rcases hp : scalarOneOrNone (withHash (hashRefreshToken D token) w.1) with e | _ | r
  · rw [(scalarOneOrNone_error hp).1]
    exact ⟨trivial, rfl⟩
  · exact ⟨trivial, rfl⟩
  · obtain ⟨hr, hash⟩ := withHash_eq_singleton (scalarOneOrNone_some.mp hp)
    cases hrev : r.revoked with
    | true =>
      simp only [hrev, if_true, tokenMove, Move.Enabled]
      rw [← hash]
      obtain ⟨x, hx, hspent⟩ := spent_of_row hr hrev
      exact ⟨⟨r.familyId, x, hx, hspent⟩, inv.signIns_revokeFamily hr hrev⟩
    | false =>
      simp only [hrev, Bool.false_eq_true, if_false]
      have effect : Effect D ⟨c, .refresh token⟩ w ((Routes.refreshed D c r).run w).1 ((Routes.refreshed D c r).run w).2 :=
        Routes.refreshed_effect (scalarOneOrNone_some.mp hp)
      have hok : ∀ a, ((Routes.refreshed D c r).run w).1 = .ok a → outcome D ⟨c, .refresh token⟩ w = .ok a := by
        intro a ha
        rw [outcome, hstep, hp]
        simp only [hrev, Bool.false_eq_true, if_false]
        exact ha
      rcases hrun : (Routes.refreshed D c r).run w with ⟨e | a, v⟩
      · have hne : e ≠ .app AuthService.reuseDetected := (refreshed_raises _).run hrun
        rw [hrun] at effect
        simp only [tokenMove, hne, if_false, Move.Enabled, Move.apply]
        generalize hi : (⟨c, .refresh token⟩ : Input) = i at effect
        cases effect with
        | rejected => exact ⟨trivial, rfl⟩
        | reuseDetected presented revoked => exact absurd rfl hne
        | uploadFailed caller task => exact absurd hi (by simp)
      · rw [hrun] at effect hok
        obtain ⟨r', u, presented, howner, hdata⟩ := refresh_answer (hok a rfl)
        obtain rfl : r = r' := List.singleton_inj.mp ((scalarOneOrNone_some.mp hp).symm.trans presented)
        simp only [tokenMove, hdata]
        generalize hi : (⟨c, .refresh token⟩ : Input) = i at effect
        cases effect with
        | answered reads =>
          rw [← hi] at reads
          exact absurd reads (by simp [Request.reads])
        | @rotated c' d b a token' r' u' tokens presented' valid owner active fresh rows =>
          obtain ⟨rfl, rfl⟩ : c = c' ∧ token = token' := by simpa using hi
          obtain rfl : r = r' := List.singleton_inj.mp (presented.symm.trans presented')
          rw [← hash]
          obtain ⟨x, hx, -, hlive⟩ := inv.live_of_row hr hrev
          have hsecret : x.secret = some r.tokenHash := by rw [SignIn.secret, hlive]; rfl
          simp only [isValid, Bool.and_eq_true, decide_eq_true_eq] at valid
          refine ⟨⟨⟨x, r.expiresAt, ⟨⟨r.familyId, hx⟩, hsecret⟩, hlive, valid.2⟩, unused_of_rows fresh⟩, ?_⟩
          exact inv.signIns_rotated hr hrev rows rfl rfl rfl _ _
        | _ => exact absurd hi (by simp)

theorem logout_moves : Moves D (.request ⟨c, .logout token⟩) w := by
  have effect := step_effect D ⟨c, .logout token⟩ w
  simp only [Moves, eventMove, nextWorld]
  generalize outcome D ⟨c, .logout token⟩ w = o at effect ⊢
  generalize next D ⟨c, .logout token⟩ w = w' at effect ⊢
  cases effect with
  | rejected => exact ⟨trivial, rfl⟩
  | answered reads => exact absurd reads (by simp [Request.reads])
  | @loggedOut c d b a token r presented live =>
    obtain ⟨hr, hash⟩ := withHash_eq_singleton presented
    refine ⟨trivial, ?_⟩
    rw [tokenMove, ← hash]
    exact inv.signIns_revokedOne hr live
  | nothingToLogOut presented =>
    refine ⟨trivial, ?_⟩
    funext f
    simp only [tokenMove, Move.apply]
    cases hs : signIns w.1.refreshTokens f with
    | none => rfl
    | some x =>
      rw [Option.map_some, if_neg]
      intro hk
      obtain ⟨t, ht, -, hkt, live, -⟩ := row_of_secret hs hk
      have hrevoked := presented t (List.mem_filter.mpr ⟨ht, by simpa using hkt⟩)
      rw [hrevoked] at live
      exact absurd live (by simp)

theorem changePassword_moves {p : ChangePassword} : Moves D (.request ⟨c, .changePassword p⟩) w := by
  have effect := step_effect D ⟨c, .changePassword p⟩ w
  simp only [Moves, eventMove, nextWorld]
  generalize outcome D ⟨c, .changePassword p⟩ w = o at effect ⊢
  generalize next D ⟨c, .changePassword p⟩ w = w' at effect ⊢
  cases effect with
  | rejected => exact ⟨trivial, rfl⟩
  | answered reads => exact absurd reads (by simp [Request.reads])
  | @passwordChanged c d b a p u hashed caller errors verified policy hash =>
    obtain ⟨payload, hp, hsub⟩ := caller.token
    have hbearer : c.bearer.bind AccessToken.sub = some u.id := by
      obtain ⟨token, htoken, hdecoded⟩ := Option.bind_eq_some_iff.mp hp
      rw [htoken, Option.bind_some]
      rw [decodeAccessToken] at hdecoded
      split at hdecoded
      · rw [Option.some.inj hdecoded]
        exact hsub
      · exact absurd hdecoded (by simp)
    simp only [tokenMove, hbearer, Option.elim_some]
    exact ⟨trivial, inv.signIns_revokeUser u.id⟩

end Moves

def Request.movesTokens : Request → Bool
  | .login .. | .refresh _ | .logout _ | .changePassword _ => true
  | _ => false

theorem other_moves (h : i.request.movesTokens = false) : Moves D (.request i) w := by
  have hidle : ∀ o, tokenMove D i o = .idle := by
    rintro (e | a) <;> rcases i with ⟨c, request⟩ <;> cases request <;> first | rfl | exact absurd h (by simp [Request.movesTokens])
  have effect := step_effect D i w
  simp only [Moves, eventMove, nextWorld, hidle, Move.Enabled, Move.apply, true_and]
  generalize outcome D i w = o at effect
  generalize next D i w = w' at effect ⊢
  cases effect with
  | loggedIn => exact absurd h (by simp [Request.movesTokens])
  | rotated => exact absurd h (by simp [Request.movesTokens])
  | reuseDetected => exact absurd h (by simp [Request.movesTokens])
  | loggedOut => exact absurd h (by simp [Request.movesTokens])
  | passwordChanged => exact absurd h (by simp [Request.movesTokens])
  | _ => rfl

theorem event_moves (e : Event) (inv : FamilyInv w.1.refreshTokens) (fresh : FreshIds e w) : Moves D e w := by
  cases e with
  | seedAdmin c email password fullName =>
    refine ⟨trivial, ?_⟩
    rcases seedAdmin_next (D := D) (w := w) c email password fullName with h | ⟨_, _, -, -, -, h⟩
    · rw [h]
      rfl
    · rw [h]
      rfl
  | request i =>
    cases hm : i.request.movesTokens with
    | false => exact other_moves hm
    | true =>
      rcases i with ⟨c, request⟩
      cases request with
      | login email password => exact login_moves fresh.family
      | refresh token => exact refresh_moves inv
      | logout token => exact logout_moves inv
      | changePassword p => exact changePassword_moves inv
      | _ => exact absurd hm (by simp [Request.movesTokens])

/-- A run of the system is a run of the store of sign-ins, over the moves of its steps; in it no secret is redeemed twice. -/
theorem sign_ins_refined {es : List Event} (run : Execution D FreshIds World.initial es w) :
    Run Move.apply Move.Enabled (fun _ => none) (labels (nextWorld D) (eventMove D) World.initial es)
        (signIns w.1.refreshTokens) ∧
      ((labels (nextWorld D) (eventMove D) World.initial es).filterMap Move.spends).Nodup := by
  have hrun : Run Move.apply Move.Enabled (signIns World.initial.1.refreshTokens)
      (labels (nextWorld D) (eventMove D) World.initial es) (signIns w.1.refreshTokens) := by
    apply run.simulates (fun w => signIns w.1.refreshTokens) (fun w => FamilyInv w.1.refreshTokens)
    · intro e w fresh inv
      obtain ⟨enabled, hnext⟩ := event_moves (D := D) e inv fresh
      exact ⟨(nextWorld_tokenStep D e w).familyInv fresh.family inv, enabled, hnext⟩
    · exact FamilyInv.empty
  have hinitial : signIns World.initial.1.refreshTokens = fun _ => none := rfl
  rw [hinitial] at hrun
  exact ⟨hrun, Move.spends_nodup hrun SignIns.separate_none⟩

theorem sign_ins_refined_sample :
    signIns (playFrom .sample World.initial twoSessions).1.refreshTokens (Call.sample 2 none).fresh.familyId =
      some ⟨16, ["rr", "rrr"], none⟩ := by
  have run : Execution .sample FreshIds World.initial twoSessions (playFrom .sample World.initial twoSessions) :=
    execution_of_freshRun (by decide +kernel) (fun _ => rfl) rfl
  rw [(sign_ins_refined run).1.eq_foldl]
  decide +kernel

/-! The answer to a refresh. -/

def Answered (D : Deployment) (c : Call) (w : World) : Verdict Uuid → Outcome → Prop
  | .unknown, o => o = .error (.app (unauthorizedError "Invalid refresh token" .invalidToken))
  | .replayed, o => o = .error (.app AuthService.reuseDetected)
  | .expired, o => o = .error (.app (unauthorizedError "Refresh token expired" .invalidToken))
  | .inactive, o => o = .error (.app (unauthorizedError "Account is inactive" .inactiveAccount))
  | .granted owner, o => ∃ u, UserRepository.find owner w.1 = some u ∧
      o = .ok { message := some "Token refreshed"
                data := .tokens ⟨createAccessToken D c owner u.role, generateRefreshToken c⟩ }

def ActiveAccount (d : Db) (userId : Uuid) : Prop := ∃ u, UserRepository.find userId d = some u ∧ u.isActive = true

theorem FamilyInv.withHash_eq (inv : FamilyInv w.1.refreshTokens) (hr : r ∈ w.1.refreshTokens.rows)
    (hash : r.tokenHash = hashRefreshToken D token) : withHash (hashRefreshToken D token) w.1 = [r] := by
  apply w.1.refreshTokens.filter_eq_singleton hr
  intro t ht
  rw [beq_iff_eq, ← hash]
  exact ⟨fun h => inv.hash t ht r hr h, fun h => by rw [h]⟩

theorem outcome_refresh (presented : withHash (hashRefreshToken D token) w.1 = [r]) (live : r.revoked = false) :
    outcome D ⟨c, .refresh token⟩ w = ((Routes.refreshed D c r).run w).1 := by
  have hstep : step D ⟨c, .refresh token⟩ w = _ := Routes.refresh_run
  rw [outcome, hstep, scalarOneOrNone_some.mpr presented]
  simp only [live, Bool.false_eq_true, if_false]

theorem refreshed_expired (h : ¬c.now < r.expiresAt) : ((Routes.refreshed D c r).run w).1 =
    .error (.app (unauthorizedError "Refresh token expired" .invalidToken)) := by
  have hvalid : isValid c r = false := by simp [isValid, h]
  have hraise : (Routes.refreshed D c r).Raises ⟨w.1, w.1, w.2⟩
      (.app (unauthorizedError "Refresh token expired" .invalidToken)) ⟨w.1, w.1, w.2⟩ :=
    .bind (.bind (Tx.raises_refuseIf hvalid))
  rw [Tx.run_of_raises hraise]

theorem refreshed_inactive (valid : isValid c r = true) (gone : ¬ActiveAccount w.1 r.userId) :
    ((Routes.refreshed D c r).run w).1 = .error (.app (unauthorizedError "Account is inactive" .inactiveAccount)) := by
  have hnone : (UserRepository.find r.userId w.1).filter User.isActive = none := by
    rw [Option.filter_eq_none_iff]
    exact fun u hu hactive => gone ⟨u, hu, hactive⟩
  have hraise : (Routes.refreshed D c r).Raises ⟨w.1, w.1, w.2⟩
      (.app (unauthorizedError "Account is inactive" .inactiveAccount)) ⟨w.1, w.1, w.2⟩ := by
    refine .bind (Tx.Succeeds.bind_raises (a := ()) (Tx.succeeds_refuseIf.mpr ⟨by simp [valid], rfl⟩) ?_)
    refine Tx.Succeeds.bind_raises (UserRepository.succeeds_get.mpr ⟨rfl, rfl⟩) (.bind ?_)
    rw [hnone]
    exact Tx.raises_ofExcept
  rw [Tx.run_of_raises hraise]

theorem refreshed_granted {u : User} (valid : isValid c r = true) (owner : UserRepository.find r.userId w.1 = some u)
    (active : u.isActive = true) (fresh : FreshSession D c w.1) : ((Routes.refreshed D c r).run w).1 =
      .ok { message := some "Token refreshed"
            data := .tokens ⟨createAccessToken D c r.userId u.role, generateRefreshToken c⟩ } := by
  obtain ⟨hu, -, hid⟩ := UserRepository.find_eq_some.mp owner
  obtain ⟨tokens, rows, hstored⟩ := Db.insertRefreshToken_of_new (e := D.engine)
    (r := AuthService.issuedToken D c u.id r.familyId) fresh hu rfl
  have hsuccessor := Routes.withHash_issued (fun x hx => (fresh x hx).2) rows
  have hrotate : (AuthService.rotate D c r).Succeeds ⟨w.1, w.1, w.2⟩ ⟨createAccessToken D c u.id u.role, generateRefreshToken c⟩
      ⟨w.1, { w.1 with refreshTokens := tokens.put (revoked r (some c.fresh.id)) }, w.2⟩ := by
    refine .seq (Tx.succeeds_refuseIf.mpr ⟨by simp [valid], rfl⟩) ?_
    refine .bind (UserRepository.succeeds_get.mpr ⟨rfl, rfl⟩) ?_
    refine .bind (Tx.succeeds_orRaise.mpr ⟨Option.filter_eq_some_iff.mpr ⟨owner, active⟩, rfl⟩) ?_
    refine .bind (.seq (RefreshTokenRepository.succeeds_add.mpr ⟨_, hstored, rfl⟩) (Tx.succeeds_pure.mpr ⟨rfl, rfl⟩)) ?_
    refine .bind (succeeds_getByHash.mpr ⟨scalarOneOrNone_some.mpr hsuccessor, rfl⟩) ?_
    exact .seq (succeeds_revoke.mpr rfl) (Tx.succeeds_pure.mpr ⟨rfl, rfl⟩)
  have hroute : (Routes.refreshed D c r).Succeeds ⟨w.1, w.1, w.2⟩ _ _ := hrotate.bind (Tx.succeeds_pure.mpr ⟨rfl, rfl⟩)
  rw [congrArg Prod.fst (Tx.run_of_succeeds hroute), hid]

/-- The store of sign-ins decides a refresh: it has a verdict on every secret, and the answer is the verdict's. -/
theorem refresh_answered (h : Reachable D w) (fresh : FreshSession D c w.1) :
    (∃ v, SignIns.Judged c.now (ActiveAccount w.1) (signIns w.1.refreshTokens) (hashRefreshToken D token) v) ∧
      ∀ v, SignIns.Judged c.now (ActiveAccount w.1) (signIns w.1.refreshTokens) (hashRefreshToken D token) v →
        Answered D c w v (outcome D ⟨c, .refresh token⟩ w) := by
  have inv := h.familyInv
  refine ⟨SignIns.exists_judged _ _ _ _, fun v judged => ?_⟩
  have hlive : ∀ {x e}, (signIns w.1.refreshTokens).Live (hashRefreshToken D token) x →
      x.live = some (hashRefreshToken D token, e) → ∃ r, withHash (hashRefreshToken D token) w.1 = [r] ∧ r.revoked = false ∧
        r.userId = x.owner ∧ r.expiresAt = e := by
    rintro x e ⟨⟨f, hx⟩, hk⟩ he
    obtain ⟨r, hr, hf, hash, live, hl⟩ := row_of_secret hx hk
    rw [he] at hl
    exact ⟨r, inv.withHash_eq hr hash, live, inv.owner_eq hx (mem_family.mpr ⟨hr, hf⟩), (Prod.mk.inj (Option.some.inj hl)).2.symm⟩
  cases judged with
  | unknown unused =>
    have hnil : withHash (hashRefreshToken D token) w.1 = [] := by
      rw [withHash, List.filter_eq_nil_iff]
      intro t ht hash
      rw [beq_iff_eq] at hash
      cases hrev : t.revoked with
      | true =>
        obtain ⟨x, hx, hspent⟩ := spent_of_row ht hrev
        exact unused _ x hx (hash ▸ SignIn.mem_secrets_of_spent hspent)
      | false =>
        obtain ⟨x, hx, -, hl⟩ := inv.live_of_row ht hrev
        exact unused _ x hx (SignIn.mem_secrets_of_secret (by rw [SignIn.secret, hl, ← hash]; rfl))
    have hstep : step D ⟨c, .refresh token⟩ w = _ := Routes.refresh_run
    rw [Answered, outcome, hstep, hnil]
    rfl
  | replayed spent =>
    obtain ⟨f, x, hx, hk⟩ := spent
    obtain ⟨r, hr, -, hash, hrev⟩ := row_of_spent hx hk
    have hspent : Spent (hashRefreshToken D token) r.familyId w.1.refreshTokens := ⟨r, inv.withHash_eq hr hash, hrev, rfl⟩
    exact congrArg Prod.fst (refresh_spent hspent)
  | expired live expires late =>
    obtain ⟨r, presented, hrev, -, rfl⟩ := hlive live expires
    rw [Answered, outcome_refresh presented hrev]
    exact refreshed_expired late
  | inactive live expires valid gone =>
    obtain ⟨r, presented, hrev, howner, rfl⟩ := hlive live expires
    rw [Answered, outcome_refresh presented hrev]
    exact refreshed_inactive (by simp [isValid, hrev, valid]) (howner ▸ gone)
  | granted live expires valid there =>
    obtain ⟨r, presented, hrev, howner, rfl⟩ := hlive live expires
    obtain ⟨u, hu, active⟩ := there
    refine ⟨u, hu, ?_⟩
    rw [outcome_refresh presented hrev, ← howner]
    exact refreshed_granted (by simp [isValid, hrev, valid]) (howner ▸ hu) active fresh

theorem refresh_answered_sample :
    outcome .sample ⟨Call.sample 9 none, .refresh "rrrrr"⟩ (playFrom .sample World.initial twoSessions) =
      .ok { message := some "Token refreshed"
            data := .tokens ⟨createAccessToken .sample (Call.sample 9 none) 16 .employee, "rrrrrrrrr"⟩ } := by
  have reachable : Reachable .sample (playFrom .sample World.initial twoSessions) := reachable_of_freshRun (by decide +kernel)
  have there : ActiveAccount (playFrom .sample World.initial twoSessions).1 16 := by
    have h : (UserRepository.find 16 (playFrom .sample World.initial twoSessions).1).any User.isActive = true := by
      decide +kernel
    exact (Option.any_eq_true _ _).mp h
  have live : (signIns (playFrom .sample World.initial twoSessions).1.refreshTokens).Live "rrrrr"
      ⟨16, [], some ("rrrrr", 604805000000)⟩ :=
    ⟨⟨(Call.sample 5 none).fresh.familyId, by decide +kernel⟩, rfl⟩
  have fresh : FreshSession .sample (Call.sample 9 none) (playFrom .sample World.initial twoSessions).1 := by
    unfold FreshSession
    decide +kernel
  have answered : Answered .sample (Call.sample 9 none) (playFrom .sample World.initial twoSessions) _
      (outcome .sample ⟨Call.sample 9 none, .refresh "rrrrr"⟩ _) :=
    (refresh_answered reachable fresh).2 _ (.granted live rfl (by decide +kernel) there)
  obtain ⟨u, hu, hanswer⟩ := answered
  rw [hanswer]
  have hemployee : (UserRepository.find 16 (playFrom .sample World.initial twoSessions).1).map User.role = some .employee := by
    decide +kernel
  rw [hu, Option.map_some] at hemployee
  rw [Option.some.inj hemployee]
  rfl

end ProjectManagement
