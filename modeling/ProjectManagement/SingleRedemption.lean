import ProjectManagement.AuthSessions
import ProjectManagement.System

/-!
Concurrent refreshes that present the same token: it is redeemed once exactly when no two of them have
looked it up before the first of them commits.
-/

namespace ProjectManagement

open Library

variable {ι : Type} [DecidableEq ι] {D : Deployment} {c : Call} {calls : ι → Call} {token : String} {d b : Db}
  {r : RefreshToken} {u : User}

/-- The token of `r` can be redeemed in `d` by every one of the requests. -/
structure Redeemable (D : Deployment) (calls : ι → Call) (token : String) (d : Db) (r : RefreshToken) (u : User) : Prop where
  found : RefreshTokenRepository.withHash (hashRefreshToken D token) d = [r]
  live : r.revoked = false
  only : ∀ t ∈ d.refreshTokens.rows, t.familyId = r.familyId → t.revoked = false → t = r
  unexpired : ∀ i, (calls i).now < r.expiresAt
  owner : UserRepository.find r.userId d = some u
  active : u.isActive = true
  fresh : ∀ i, ∀ t ∈ d.refreshTokens.rows,
    t.id ≠ (calls i).fresh.id ∧ t.tokenHash ≠ hashRefreshToken D (generateRefreshToken (calls i))
  distinct : ∀ i j, i ≠ j → (calls i).fresh.id ≠ (calls j).fresh.id ∧
    hashRefreshToken D (generateRefreshToken (calls i)) ≠ hashRefreshToken D (generateRefreshToken (calls j))

/-! The way of a request that has found the token unrevoked. -/

def redemptionWrites (D : Deployment) (c : Call) (r : RefreshToken) (u : User) : List (Write Db RowKey) :=
  [issueStatement D c u.id r.familyId, replaceStatement r (some c.fresh.id)]

inductive Redeeming (D : Deployment) (c : Call) (r : RefreshToken) (u : User) : AuthPhase → List (Write Db RowKey) → Prop
  | found : Redeeming D c r u (.found r) []
  | owned : Redeeming D c r u (.owned r u) []
  | issued : Redeeming D c r u (.issued r (pairFor D c u)) [issueStatement D c u.id r.familyId]
  | succeeded : Redeeming D c r u (.succeeded r (pairFor D c u) (some c.fresh.id)) [issueStatement D c u.id r.familyId]
  | answered : Redeeming D c r u (.answered (pairFor D c u)) (redemptionWrites D c r u)

theorem read_activeOwner (howner : UserRepository.find r.userId b = some u) (hactive : u.isActive = true) :
    read (activeOwner r) b = .ok u := by
  apply Tx.answer_eq_ok.mpr
  refine ⟨⟨b, b, fun _ => none⟩, ?_⟩
  simp only [activeOwner, Tx.succeeds_bind, UserRepository.succeeds_get, Tx.succeeds_orRaise]
  exact ⟨_, _, ⟨rfl, rfl⟩, Option.filter_eq_some_iff.mpr ⟨howner, hactive⟩, rfl⟩

theorem read_own_token {userId familyId : Uuid} (h : Issuable D c userId b) :
    read (RefreshTokenRepository.getByHash (hashRefreshToken D (generateRefreshToken c)))
      ((issueStatement D c userId familyId).run b) = .ok (some (AuthService.issuedToken D c userId familyId)) := by
  obtain ⟨ts, hrows, hrun⟩ := h.run_issue familyId
  apply Tx.answer_eq_ok.mpr
  refine ⟨_, RefreshTokenRepository.succeeds_getByHash.mpr ⟨?_, rfl⟩⟩
  rw [scalarOneOrNone_some, RefreshTokenRepository.withHash, hrun]
  have hnone : b.refreshTokens.rows.filter (fun t => t.tokenHash == hashRefreshToken D (generateRefreshToken c)) = [] := by
    apply List.filter_eq_nil_iff.mpr
    intro t ht
    simpa using (h.fresh t ht).2
  rw [hrows, List.filter_append, hnone, List.nil_append]
  simp [AuthService.issuedToken]

theorem Redeeming.next (request : AuthRequest) {p : AuthPhase} {ws : List (Write Db RowKey)} (h : Redeeming D c r u p ws)
    (hb : Issuable D c u.id b) (howner : p = .found r → UserRepository.find r.userId b = some u ∧ u.isActive = true) :
    (∃ q, AuthPhase.next D c request p (ws.foldl (fun d w => w.run d) b) = .read q ∧ Redeeming D c r u q ws) ∨
    (∃ w q, AuthPhase.next D c request p (ws.foldl (fun d w => w.run d) b) = .write w q ∧
      Redeeming D c r u q (ws ++ [w])) ∨
    (p = .answered (pairFor D c u) ∧ ws = redemptionWrites D c r u ∧
      AuthPhase.next D c request p (ws.foldl (fun d w => w.run d) b) = .commit (.signedIn (pairFor D c u))) := by
  cases h with
  | found =>
    refine Or.inl ⟨_, ?_, .owned⟩
    obtain ⟨hfind, hactive⟩ := howner rfl
    simp only [List.foldl_nil, AuthPhase.next, read_activeOwner hfind hactive]
  | owned => exact Or.inr (Or.inl ⟨_, _, hb.issue_eq _, .issued⟩)
  | issued =>
    refine Or.inl ⟨_, ?_, .succeeded⟩
    simp only [List.foldl_cons, List.foldl_nil, AuthPhase.next, pairFor, read_own_token hb, Option.map_some]
    rfl
  | succeeded => exact Or.inr (Or.inl ⟨_, _, rfl, .answered⟩)
  | answered => exact Or.inr (Or.inr ⟨rfl, rfl, rfl⟩)

/-! The look-up. -/

theorem read_lookUp (h : RefreshTokenRepository.withHash (hashRefreshToken D token) b = [r]) :
    read (lookUp D token) b = .ok r := by
  apply Tx.answer_eq_ok.mpr
  refine ⟨⟨b, b, fun _ => none⟩, ?_⟩
  simp only [lookUp, Tx.succeeds_bind, RefreshTokenRepository.succeeds_getByHash, Tx.succeeds_orRaise]
  exact ⟨some r, _, ⟨scalarOneOrNone_some.mpr h, rfl⟩, rfl, rfl⟩

theorem lookUp_mem {t : RefreshToken} (h : read (lookUp D token) b = .ok t) :
    t ∈ b.refreshTokens.rows ∧ t.tokenHash = hashRefreshToken D token := by
  obtain ⟨s, hs⟩ := Tx.answer_eq_ok.mp h
  simp only [lookUp, Tx.succeeds_bind, RefreshTokenRepository.succeeds_getByHash, Tx.succeeds_orRaise] at hs
  obtain ⟨o, _, ⟨ho, -⟩, rfl, -⟩ := hs
  exact RefreshTokenRepository.withHash_eq_singleton (scalarOneOrNone_some.mp ho)

theorem next_start (h : RefreshTokenRepository.withHash (hashRefreshToken D token) b = [r]) (hlive : r.revoked = false)
    (hvalid : c.now < r.expiresAt) : AuthPhase.next D c (.refresh token) .start b = .read (.found r) := by
  have hisValid : RefreshTokenRepository.isValid c r = true := by simp [RefreshTokenRepository.isValid, hlive, hvalid]
  simp [AuthPhase.next, read_lookUp h, hlive, hisValid]

omit [DecidableEq ι] in
theorem Redeemable.issuable (h : Redeemable D calls token d r u) (i : ι) : Issuable D (calls i) u.id d :=
  ⟨h.fresh i, u, (UserRepository.find_eq_some.mp h.owner).1, rfl⟩

omit [DecidableEq ι] in
theorem Redeemable.alone (h : Redeemable D calls token d r u) {i : ι} {p : AuthPhase} {ws : List (Write Db RowKey)}
    (ha : Sessions.Alone (AuthPhase.next D (calls i) (.refresh token)) d .start [] p ws) :
    (p = .start ∧ ws = []) ∨ Redeeming D (calls i) r u p ws := by
  refine ha.invariant_next (I := fun p ws => (p = .start ∧ ws = []) ∨ Redeeming D (calls i) r u p ws) (fun p ws hway => ?_)
    (Or.inl ⟨rfl, rfl⟩)
  rcases hway with ⟨rfl, rfl⟩ | hway
  · exact Or.inl ⟨_, next_start h.found h.live (h.unexpired i), Or.inr .found⟩
  · rcases hway.next (.refresh token) (h.issuable i) (fun _ => ⟨h.owner, h.active⟩) with ⟨q, hread, hq⟩ | ⟨w, q, hwrite, hq⟩ | ⟨-, -, hcommit⟩
    · exact Or.inl ⟨q, hread, Or.inr hq⟩
    · exact Or.inr (Or.inl ⟨w, q, hwrite, Or.inr hq⟩)
    · exact Or.inr (Or.inr (by rw [hcommit]; rfl))

/-! The way of a request that comes too late: it finds the token revoked, and revokes the family. -/

inductive Rejected : AuthPhase → List (Write Db RowKey) → Prop
  | start : Rejected .start []
  | replayed (familyId : Uuid) : Rejected (.replayed familyId) []
  | suspected (familyId : Uuid) (ids : List Uuid) : Rejected (.suspected familyId ids) []
  | killed (familyId : Uuid) (ids : List Uuid) :
      Rejected .killed [revokeStatement (fun t => t.familyId == familyId) ids]
  | failed (e : Raised) : Rejected (.failed e) []

def AllSpent (D : Deployment) (token : String) (b : Db) : Prop :=
  ∀ t ∈ b.refreshTokens.rows, t.tokenHash = hashRefreshToken D token → t.revoked = true

theorem Rejected.next {p : AuthPhase} {ws : List (Write Db RowKey)} (h : Rejected p ws) (hb : AllSpent D token b) :
    (∃ q, AuthPhase.next D c (.refresh token) p (ws.foldl (fun d w => w.run d) b) = .read q ∧ Rejected q ws) ∨
    (∃ w q, AuthPhase.next D c (.refresh token) p (ws.foldl (fun d w => w.run d) b) = .write w q ∧ Rejected q (ws ++ [w])) ∨
    (∃ e, AuthPhase.next D c (.refresh token) p (ws.foldl (fun d w => w.run d) b) = .rollback (.failed e)) ∨
    (∃ familyId ids e, ws = [revokeStatement (fun t => t.familyId == familyId) ids] ∧
      AuthPhase.next D c (.refresh token) p (ws.foldl (fun d w => w.run d) b) = .commit (.failed e)) ∨
    AuthPhase.next D c (.refresh token) p (ws.foldl (fun d w => w.run d) b) = .stop := by
  cases h with
  | start =>
    cases hlook : read (lookUp D token) b with
    | error e =>
      refine Or.inr (Or.inr (Or.inl ⟨e, ?_⟩))
      simp only [List.foldl_nil, AuthPhase.next, hlook]
    | ok t =>
      obtain ⟨hmem, hhash⟩ := lookUp_mem hlook
      refine Or.inl ⟨_, ?_, .replayed t.familyId⟩
      simp only [List.foldl_nil, AuthPhase.next, hlook, hb t hmem hhash, if_true]
  | replayed familyId => exact Or.inl ⟨_, rfl, .suspected familyId _⟩
  | suspected familyId ids => exact Or.inr (Or.inl ⟨_, _, rfl, .killed familyId ids⟩)
  | killed familyId ids => exact Or.inr (Or.inr (Or.inr (Or.inl ⟨familyId, ids, _, rfl, rfl⟩)))
  | failed e => exact Or.inr (Or.inr (Or.inr (Or.inr rfl)))

/-- The token has been redeemed by `i`, and everyone else comes too late. -/
structure Redeemed (D : Deployment) (calls : ι → Call) (token : String) (r : RefreshToken) (i : ι)
    (s : AuthSessions ι) : Prop where
  spent : AllSpent D token s.committed
  family : ∀ t ∈ s.committed.refreshTokens.rows, t.familyId = r.familyId → t.revoked = false → t.id = (calls i).fresh.id
  winner : ∃ pair, s.phase i = .signedIn pair
  others : ∀ j, j ≠ i → Rejected (s.phase j) (s.pending j)

theorem Redeemed.other {s s' : AuthSessions ι} {i j : ι} (h : Redeemed D calls token r i s) (hj : j ≠ i)
    (hspent : AllSpent D token s'.committed) (hfamily : ∀ t ∈ s'.committed.refreshTokens.rows,
      t.familyId = r.familyId → t.revoked = false → t.id = (calls i).fresh.id)
    (hphase : ∀ k, k ≠ j → s'.phase k = s.phase k) (hpending : ∀ k, k ≠ j → s'.pending k = s.pending k)
    (hown : Rejected (s'.phase j) (s'.pending j)) : Redeemed D calls token r i s' where
  spent := hspent
  family := hfamily
  winner := by
    rw [hphase i hj.symm]
    exact h.winner
  others k hk := by
    by_cases hkj : k = j
    · rw [hkj]
      exact hown
    · rw [hphase k hkj, hpending k hkj]
      exact h.others k hk

theorem Redeemed.step {s : AuthSessions ι} {i : ι} (h : Redeemed D calls token r i s) (j : ι) :
    Redeemed D calls token r i (s.step (authStatements D calls fun _ => .refresh token) j) := by
  by_cases hj : j = i
  · obtain ⟨pair, hwinner⟩ := h.winner
    rw [hj, Sessions.step, hwinner]
    exact h
  · have hown := h.others j hj
    have hnext := hown.next (c := calls j) h.spent
    unfold Sessions.step Sessions.view authStatements
    obtain ⟨q, hq, hway⟩ | ⟨w, q, hq, hway⟩ | ⟨e, hq⟩ | ⟨familyId, ids, e, hws, hq⟩ | hq := hnext <;> rw [hq]
    · refine h.other hj h.spent h.family (fun k hk => Sessions.phase_perform_ne hk)
        (fun k hk => Sessions.pending_perform_ne hk) ?_
      simp only [Sessions.perform, Sessions.phase_goTo]
      exact hway
    · cases hb : s.blocked j w.keys with
      | true =>
        rw [Sessions.perform_blocked hb]
        exact h
      | false =>
        refine h.other hj ?_ ?_ (fun k hk => Sessions.phase_perform_ne hk) (fun k hk => Sessions.pending_perform_ne hk) ?_
        · rw [Sessions.committed_perform (by simp)]
          exact h.spent
        · rw [Sessions.committed_perform (by simp)]
          exact h.family
        · rw [Sessions.phase_perform_write hb, Sessions.pending_perform_write hb]
          exact hway
    · refine h.other hj h.spent h.family (fun k hk => Sessions.phase_perform_ne hk)
        (fun k hk => Sessions.pending_perform_ne hk) ?_
      simp only [Sessions.perform, Sessions.phase_close, Sessions.pending_close]
      exact .failed e
    · have hcommitted : (s.perform j (.commit (.failed e))).committed =
          (revokeStatement (fun t => t.familyId == familyId) ids).run s.committed := by
        rw [Sessions.perform, Sessions.view, hws]
        rfl
      refine h.other hj (fun t ht hhash => ?_) (fun t ht hfamily hlive => ?_) (fun k hk => Sessions.phase_perform_ne hk)
        (fun k hk => Sessions.pending_perform_ne hk) ?_
      · rw [hcommitted] at ht
        rcases RefreshTokenRepository.of_mem_revokeWhere ht with ⟨ht, -⟩ | ⟨t', ht', -, rfl⟩
        · exact h.spent t ht hhash
        · rfl
      · rw [hcommitted] at ht
        rcases RefreshTokenRepository.of_mem_revokeWhere ht with ⟨ht, -⟩ | ⟨t', ht', -, rfl⟩
        · exact h.family t ht hfamily hlive
        · simp at hlive
      · simp only [Sessions.perform, Sessions.close, Function.update_self]
        exact .failed e
    · exact h

omit [DecidableEq ι] in
theorem Redeemable.redemption (h : Redeemable D calls token d r u) (i : ι) :
    AllSpent D token ((redemptionWrites D (calls i) r u).foldl (fun d w => w.run d) d) ∧
      ∀ t ∈ ((redemptionWrites D (calls i) r u).foldl (fun d w => w.run d) d).refreshTokens.rows, t.familyId = r.familyId →
        t.revoked = false → t.id = (calls i).fresh.id := by
  obtain ⟨ts, hrows, hrun⟩ := (h.issuable i).run_issue r.familyId
  obtain ⟨hr, hhash⟩ := RefreshTokenRepository.withHash_eq_singleton h.found
  have hmem : ∀ t ∈ ((redemptionWrites D (calls i) r u).foldl (fun d w => w.run d) d).refreshTokens.rows,
      t.revoked = true ∨ (t ∈ d.refreshTokens.rows ∧ t.id ≠ r.id) ∨ t = AuthService.issuedToken D (calls i) u.id r.familyId := by
    intro t ht
    rw [redemptionWrites, List.foldl_cons, hrun] at ht
    rcases mem_replaceIn.mp ht with ⟨ht, hne⟩ | ⟨t', -, -, rfl⟩
    · right
      simp only [hrows, List.mem_append, List.mem_singleton] at ht
      rcases ht with ht | ht
      · exact Or.inl ⟨ht, hne⟩
      · exact Or.inr ht
    · exact Or.inl rfl
  refine ⟨fun t ht hspent => ?_, fun t ht hfamily hlive => ?_⟩
  · rcases hmem t ht with hrevoked | ⟨ht, hne⟩ | rfl
    · exact hrevoked
    · have hwith : t ∈ RefreshTokenRepository.withHash (hashRefreshToken D token) d :=
        List.mem_filter.mpr ⟨ht, by simpa using hspent⟩
      rw [h.found, List.mem_singleton] at hwith
      exact absurd (congrArg RefreshToken.id hwith) hne
    · exact absurd (hhash.trans hspent.symm) (h.fresh i r hr).2
  · rcases hmem t ht with hrevoked | ⟨ht, hne⟩ | rfl
    · rw [hrevoked] at hlive
      exact absurd hlive (by simp)
    · exact absurd (congrArg RefreshToken.id (h.only t ht hfamily hlive)) hne
    · rfl

/-! Runs. -/

def AuthPhase.finished : AuthPhase → Bool
  | signedIn _ => true
  | changed _ => true
  | failed _ => true
  | _ => false

theorem Redeeming.not_finished {p : AuthPhase} {ws : List (Write Db RowKey)} (h : Redeeming D c r u p ws) :
    p.finished = false := by
  cases h <;> rfl

abbrev runRefreshes (D : Deployment) (calls : ι → Call) (token : String) (d : Db) (schedule : List ι) : AuthSessions ι :=
  runAuth D calls (fun _ => .refresh token) d schedule

/-- At most one request has been given a pair, and at most one token of the family is unrevoked. -/
def RedeemedOnce (r : RefreshToken) (s : AuthSessions ι) : Prop :=
  (∀ i j pair pair', s.phase i = .signedIn pair → s.phase j = .signedIn pair' → i = j) ∧
    ∀ t ∈ s.committed.refreshTokens.rows, ∀ t' ∈ s.committed.refreshTokens.rows, t.familyId = r.familyId →
      t'.familyId = r.familyId → t.revoked = false → t'.revoked = false → t = t'

omit [DecidableEq ι] in
theorem Redeemed.once {s : AuthSessions ι} {i : ι} (h : Redeemed D calls token r i s) : RedeemedOnce r s := by
  have hwinner : ∀ j pair, s.phase j = .signedIn pair → j = i := by
    intro j pair hj
    by_contra hne
    have hother := h.others j hne
    rw [hj] at hother
    cases hother
  refine ⟨fun j k pair pair' hj hk => (hwinner j pair hj).trans (hwinner k pair' hk).symm, ?_⟩
  intro t ht t' ht' hfamily hfamily' hlive hlive'
  exact s.committed.refreshTokens.eq_of_key ht ht' ((h.family t ht hfamily hlive).trans (h.family t' ht' hfamily' hlive').symm)

theorem Redeemable.before_commit (h : Redeemable D calls token d r u) {schedule : List ι}
    (hnone : (runRefreshes D calls token d schedule).commits = []) :
    (runRefreshes D calls token d schedule).committed = d ∧ ∀ i,
      ((runRefreshes D calls token d schedule).phase i = .start ∧ (runRefreshes D calls token d schedule).pending i = []) ∨
      Redeeming D (calls i) r u ((runRefreshes D calls token d schedule).phase i)
        ((runRefreshes D calls token d schedule).pending i) := by
  obtain ⟨hcommitted, halone⟩ := Sessions.play_alone (s := Sessions.start d AuthPhase.start) hnone
  exact ⟨hcommitted, fun i => h.alone (halone i)⟩

theorem Redeemable.commit (h : Redeemable D calls token d r u) {before : List ι} {i : ι} {p : AuthPhase}
    (hnone : (runRefreshes D calls token d before).commits = [])
    (hp : AuthPhase.next D (calls i) (.refresh token) ((runRefreshes D calls token d before).phase i)
      ((runRefreshes D calls token d before).view i) = .commit p) :
    (runRefreshes D calls token d before).phase i ≠ .start ∧ p = .signedIn (pairFor D (calls i) u) ∧
      (runRefreshes D calls token d before).view i = (redemptionWrites D (calls i) r u).foldl (fun d w => w.run d) d := by
  obtain ⟨hcommitted, hway⟩ := h.before_commit hnone
  have hi : Redeeming D (calls i) r u ((runRefreshes D calls token d before).phase i)
      ((runRefreshes D calls token d before).pending i) := by
    refine (hway i).resolve_left fun hstart => ?_
    rw [hstart.1, Sessions.view_of_pending_nil hstart.2, hcommitted,
      next_start h.found h.live (h.unexpired i)] at hp
    simp at hp
  have hnext := hi.next (.refresh token) (h.issuable i) fun _ => ⟨h.owner, h.active⟩
  rw [Sessions.view, hcommitted] at hp
  rw [hp] at hnext
  obtain ⟨q, hq, -⟩ | ⟨w, q, hq, -⟩ | ⟨hphase, hpending, hq⟩ := hnext
  · simp at hq
  · simp at hq
  · refine ⟨?_, Action.commit.inj hq, ?_⟩
    · rw [hphase]
      simp
    · rw [Sessions.view, hcommitted, hpending]

theorem Redeemable.first_commit (h : Redeemable D calls token d r u) {before : List ι} {i : ι} {p : AuthPhase}
    (hnone : (runRefreshes D calls token d before).commits = [])
    (hp : AuthPhase.next D (calls i) (.refresh token) ((runRefreshes D calls token d before).phase i)
      ((runRefreshes D calls token d before).view i) = .commit p)
    (hothers : ∀ j, j ≠ i → (runRefreshes D calls token d before).phase j = .start) :
    Redeemed D calls token r i ((runRefreshes D calls token d before).step (authStatements D calls fun _ => .refresh token) i) := by
  obtain ⟨hcommitted, hway⟩ := h.before_commit hnone
  obtain ⟨-, rfl, hview⟩ := h.commit hnone hp
  have hstep : (runRefreshes D calls token d before).step (authStatements D calls fun _ => .refresh token) i =
      (runRefreshes D calls token d before).perform i (.commit (.signedIn (pairFor D (calls i) u))) := congrArg _ hp
  obtain ⟨hspent, hfamily⟩ := h.redemption i
  rw [← hview] at hspent hfamily
  rw [hstep]
  refine ⟨hspent, hfamily, ⟨pairFor D (calls i) u, ?_⟩, fun j hj => ?_⟩
  · simp only [Sessions.perform]
    exact Sessions.phase_close
  · rw [Sessions.phase_perform_ne hj, Sessions.pending_perform_ne hj, hothers j hj]
    have hstart := (hway j).resolve_right fun hredeeming => by
      rw [hothers j hj] at hredeeming
      cases hredeeming
    rw [hstart.2]
    exact .start

theorem redeemed_once (h : Redeemable D calls token d r u) {schedule : List ι}
    (hend : ∀ i, (runRefreshes D calls token d schedule).phase i = .start ∨
      ((runRefreshes D calls token d schedule).phase i).finished = true)
    (hone : ∀ before after, schedule = before ++ after → (runRefreshes D calls token d before).commits = [] →
      ∀ i j, (runRefreshes D calls token d before).phase i ≠ .start → (runRefreshes D calls token d before).phase j ≠ .start →
        i = j) : RedeemedOnce r (runRefreshes D calls token d schedule) := by
  by_cases hnone : (runRefreshes D calls token d schedule).commits = []
  · obtain ⟨hcommitted, hway⟩ := h.before_commit hnone
    have hstart : ∀ i, (runRefreshes D calls token d schedule).phase i = .start := by
      intro i
      refine (hend i).resolve_right fun hfinished => ?_
      rcases hway i with ⟨hp, -⟩ | hp
      · rw [hp] at hfinished
        exact absurd hfinished (by simp [AuthPhase.finished])
      · rw [hp.not_finished] at hfinished
        exact absurd hfinished (by simp)
    refine ⟨fun i j pair pair' hi => ?_, ?_⟩
    · rw [hstart i] at hi
      exact absurd hi (by simp)
    · rw [hcommitted]
      intro t ht t' ht' hfamily hfamily' hlive hlive'
      exact (h.only t ht hfamily hlive).trans (h.only t' ht' hfamily' hlive').symm
  · obtain ⟨before, i, after, p, rfl, hbefore, hp⟩ := Sessions.exists_first_commit (s := Sessions.start d AuthPhase.start) hnone
    obtain ⟨hi, -, -⟩ := h.commit hbefore hp
    have hfirst := h.first_commit hbefore hp fun j hj => by
      by_contra hstarted
      exact hj (hone before (i :: after) rfl hbefore j i hstarted hi)
    have hrun : runRefreshes D calls token d (before ++ i :: after) =
        ((runRefreshes D calls token d before).step (authStatements D calls fun _ => .refresh token) i).play
          (authStatements D calls fun _ => .refresh token) after := Sessions.play_append
    rw [hrun]
    exact (Sessions.play_invariant (fun s j (hs : Redeemed D calls token r i s) => hs.step j) hfirst after).once

/-! Two requests that have both looked the token up are both answered with a pair. -/

def AuthPhase.refreshing : AuthPhase → Bool
  | verified _ => false
  | confirmed _ _ => false
  | listed _ _ _ => false
  | ended _ _ => false
  | saved _ => false
  | changed _ => false
  | _ => true

inductive RefreshAction (D : Deployment) (c : Call) : Action Db RowKey AuthPhase → Prop
  | stop : RefreshAction D c .stop
  | read {q : AuthPhase} (h : q.refreshing = true) : RefreshAction D c (.read q)
  | write {w : Write Db RowKey} {q : AuthPhase} (hw : SessionWrite D c w) (h : q.refreshing = true) : RefreshAction D c (.write w q)
  | commit {q : AuthPhase} (h : q.refreshing = true) (hq : q.finished = true) : RefreshAction D c (.commit q)
  | rollback (e : Raised) : RefreshAction D c (.rollback (.failed e))

/-- What the statement of a phase can do, whatever it reads. -/
inductive AuthAction (D : Deployment) (c : Call) : AuthRequest → AuthPhase → Action Db RowKey AuthPhase → Prop
  | stop {q : AuthRequest} {p : AuthPhase} (h : p.finished = true) : AuthAction D c q p .stop
  | fail {q : AuthRequest} {p : AuthPhase} (e : Raised) (h : p.finished = false) : AuthAction D c q p (.rollback (.failed e))
  | verify {email password : String} (u : User) : AuthAction D c (.login email password) .start (.read (.verified u))
  | find {token : String} (r : RefreshToken) : AuthAction D c (.refresh token) .start (.read (.found r))
  | replay {token : String} (familyId : Uuid) : AuthAction D c (.refresh token) .start (.read (.replayed familyId))
  | confirm {p : ChangePassword} (u : User) (hashed : String) :
      AuthAction D c (.changePassword p) .start (.read (.confirmed u hashed))
  | signIn {q : AuthRequest} {u : User} (pair : TokenPair) :
      AuthAction D c q (.verified u) (.write (issueStatement D c u.id c.fresh.familyId) (.answered pair))
  | own {q : AuthRequest} {r : RefreshToken} (u : User) : AuthAction D c q (.found r) (.read (.owned r u))
  | rotate {q : AuthRequest} {r : RefreshToken} {u : User} (pair : TokenPair) :
      AuthAction D c q (.owned r u) (.write (issueStatement D c u.id r.familyId) (.issued r pair))
  | succeed {q : AuthRequest} {r : RefreshToken} {pair : TokenPair} (successor : Option Uuid) :
      AuthAction D c q (.issued r pair) (.read (.succeeded r pair successor))
  | replace {q : AuthRequest} {r : RefreshToken} {pair : TokenPair} {successor : Option Uuid} :
      AuthAction D c q (.succeeded r pair successor) (.write (replaceStatement r successor) (.answered pair))
  | suspect {q : AuthRequest} {familyId : Uuid} (ids : List Uuid) :
      AuthAction D c q (.replayed familyId) (.read (.suspected familyId ids))
  | kill {q : AuthRequest} {familyId : Uuid} {ids : List Uuid} :
      AuthAction D c q (.suspected familyId ids) (.write (revokeStatement (fun t => t.familyId == familyId) ids) .killed)
  | list {q : AuthRequest} {u : User} {hashed : String} (ids : List Uuid) :
      AuthAction D c q (.confirmed u hashed) (.read (.listed u hashed ids))
  | sweep {q : AuthRequest} {u : User} {hashed : String} {ids : List Uuid} :
      AuthAction D c q (.listed u hashed ids) (.write (revokeStatement (fun t => t.userId == u.id) ids) (.ended u hashed))
  | keep {q : AuthRequest} {u : User} {hashed : String} : AuthAction D c q (.ended u hashed) (.read (.saved u))
  | save {q : AuthRequest} {u : User} {hashed : String} :
      AuthAction D c q (.ended u hashed) (.write (passwordStatement D c u hashed) (.saved u))
  | killed {q : AuthRequest} : AuthAction D c q .killed (.commit (.failed (.app AuthService.reuseDetected)))
  | saved {q : AuthRequest} {u : User} : AuthAction D c q (.saved u) (.commit (.changed u))
  | answered {q : AuthRequest} {pair : TokenPair} : AuthAction D c q (.answered pair) (.commit (.signedIn pair))

theorem authAction_next (q : AuthRequest) (p : AuthPhase) : AuthAction D c q p (AuthPhase.next D c q p b) := by
  cases p with
  | start =>
    cases q with
    | login email password =>
      simp only [AuthPhase.next]
      split
      · exact .verify _
      · exact .fail _ rfl
    | refresh token =>
      simp only [AuthPhase.next]
      split
      · split
        · exact .replay _
        · split
          · exact .fail _ rfl
          · exact .find _
      · exact .fail _ rfl
    | changePassword p =>
      simp only [AuthPhase.next]
      split
      · exact .confirm _ _
      · exact .fail _ rfl
  | verified user =>
    simp only [AuthPhase.next, issue]
    split
    · exact .signIn _
    · exact .fail _ rfl
  | found record =>
    simp only [AuthPhase.next]
    split
    · exact .own _
    · exact .fail _ rfl
  | owned record user =>
    simp only [AuthPhase.next, issue]
    split
    · exact .rotate _
    · exact .fail _ rfl
  | issued record pair =>
    simp only [AuthPhase.next]
    split
    · exact .succeed _
    · exact .fail _ rfl
  | succeeded record pair successor => exact .replace
  | replayed familyId => exact .suspect _
  | suspected familyId ids => exact .kill
  | killed => exact .killed
  | confirmed user hashed => exact .list _
  | listed user hashed ids => exact .sweep
  | ended user hashed =>
    simp only [AuthPhase.next]
    split
    · exact .keep
    · exact .save
  | saved user => exact .saved
  | answered pair => exact .answered
  | signedIn pair => exact .stop rfl
  | changed user => exact .stop rfl
  | failed e => exact .stop rfl

theorem AuthAction.finished {q : AuthRequest} {p x : AuthPhase} (h : AuthAction D c q p (.commit x)) : x.finished = true := by
  cases h <;> rfl

theorem AuthAction.refreshAction {token : String} {p : AuthPhase} {a : Action Db RowKey AuthPhase}
    (h : AuthAction D c (.refresh token) p a) (hp : p.refreshing = true) : RefreshAction D c a := by
  cases h with
  | stop h => exact .stop
  | fail e h => exact .rollback e
  | find r => exact .read rfl
  | replay familyId => exact .read rfl
  | own u => exact .read rfl
  | rotate pair => exact .write (.issue _ _) rfl
  | succeed successor => exact .read rfl
  | replace => exact .write (.replace _ _) rfl
  | suspect ids => exact .read rfl
  | kill => exact .write (.revoke _ _) rfl
  | killed => exact .commit rfl rfl
  | answered => exact .commit rfl rfl
  | signIn pair => simp [AuthPhase.refreshing] at hp
  | list ids => simp [AuthPhase.refreshing] at hp
  | sweep => simp [AuthPhase.refreshing] at hp
  | keep => simp [AuthPhase.refreshing] at hp
  | save => simp [AuthPhase.refreshing] at hp
  | saved => simp [AuthPhase.refreshing] at hp

structure Growing (D : Deployment) (calls : ι → Call) (d : Db) (s : AuthSessions ι) : Prop where
  users : s.committed.users = d.users
  rows : ∀ t ∈ s.committed.refreshTokens.rows, (∃ t' ∈ d.refreshTokens.rows, t'.id = t.id ∧ t'.tokenHash = t.tokenHash) ∨
    ∃ m, (s.phase m).finished = true ∧ t.id = (calls m).fresh.id ∧
      t.tokenHash = hashRefreshToken D (generateRefreshToken (calls m))
  writes : ∀ m, ∀ w ∈ s.pending m, SessionWrite D (calls m) w
  refreshing : ∀ m, (s.phase m).refreshing = true

omit [DecidableEq ι] in
theorem growing_start : Growing D calls d (Sessions.start d .start : AuthSessions ι) where
  users := rfl
  rows t ht := Or.inl ⟨t, ht, rfl, rfl⟩
  writes m w hw := by simp [Sessions.start] at hw
  refreshing _ := rfl

theorem next_of_finished {p : AuthPhase} (request : AuthRequest) (h : p.finished = true) : AuthPhase.next D c request p b = .stop := by
  cases p <;> first | rfl | simp [AuthPhase.finished] at h

theorem Growing.quiet {s s' : AuthSessions ι} {j : ι} (h : Growing D calls d s) (hrunning : (s.phase j).finished = false)
    (hcommitted : s'.committed = s.committed) (hphase : ∀ k, k ≠ j → s'.phase k = s.phase k)
    (hpending : ∀ k, k ≠ j → s'.pending k = s.pending k) (hown : (s'.phase j).refreshing = true)
    (hwrites : ∀ w ∈ s'.pending j, SessionWrite D (calls j) w) : Growing D calls d s' where
  users := by
    rw [hcommitted]
    exact h.users
  rows t ht := by
    rw [hcommitted] at ht
    rcases h.rows t ht with hold | ⟨m, hm, hid⟩
    · exact Or.inl hold
    · have hne : m ≠ j := by
        rintro rfl
        rw [hrunning] at hm
        exact absurd hm (by simp)
      exact Or.inr ⟨m, by rw [hphase m hne]; exact hm, hid⟩
  writes m w hw := by
    by_cases hm : m = j
    · subst hm
      exact hwrites w hw
    · rw [hpending m hm] at hw
      exact h.writes m w hw
  refreshing m := by
    by_cases hm : m = j
    · subst hm
      exact hown
    · rw [hphase m hm]
      exact h.refreshing m

theorem Growing.commit {s : AuthSessions ι} {j : ι} {q : AuthPhase} (h : Growing D calls d s)
    (hrunning : (s.phase j).finished = false) (hq : q.refreshing = true) (hfinished : q.finished = true) :
    Growing D calls d (s.perform j (.commit q)) := by
  obtain ⟨husers, hrows⟩ := SessionWrite.run_all (b := s.committed) (h.writes j)
  have hown : (s.perform j (.commit q)).phase j = q := by
    simp only [Sessions.perform]
    exact Sessions.phase_close
  have hfinal : ∀ m, (s.phase m).finished = true → ((s.perform j (.commit q)).phase m).finished = true := by
    intro m hm
    by_cases hmj : m = j
    · rw [hmj, hown]
      exact hfinished
    · rw [Sessions.phase_perform_ne hmj]
      exact hm
  refine ⟨husers.trans h.users, fun t ht => ?_, fun m w hw => ?_, fun m => ?_⟩
  · rcases hrows t ht with ⟨t', ht', hid, hhash⟩ | hnew
    · rcases h.rows t' ht' with ⟨t'', ht'', hid', hhash'⟩ | ⟨m, hm, hid', hhash'⟩
      · exact Or.inl ⟨t'', ht'', hid'.trans hid, hhash'.trans hhash⟩
      · exact Or.inr ⟨m, hfinal m hm, hid.symm.trans hid', hhash.symm.trans hhash'⟩
    · exact Or.inr ⟨j, by rw [hown]; exact hfinished, hnew⟩
  · by_cases hm : m = j
    · subst hm
      simp only [Sessions.perform] at hw
      simp [Sessions.close] at hw
    · rw [Sessions.pending_perform_ne hm] at hw
      exact h.writes m w hw
  · by_cases hm : m = j
    · rw [hm, hown]
      exact hq
    · rw [Sessions.phase_perform_ne hm]
      exact h.refreshing m

theorem Growing.step {s : AuthSessions ι} (h : Growing D calls d s) (j : ι) :
    Growing D calls d (s.step (authStatements D calls fun _ => .refresh token) j) := by
  cases hfinished : (s.phase j).finished with
  | true =>
    rw [Sessions.step, authStatements, next_of_finished _ hfinished]
    exact h
  | false =>
    have haction := (authAction_next (D := D) (c := calls j) (b := s.view j) (.refresh token) (s.phase j)).refreshAction
      (h.refreshing j)
    unfold Sessions.step authStatements
    generalize AuthPhase.next D (calls j) (.refresh token) (s.phase j) (s.view j) = a at haction ⊢
    cases haction with
    | stop => exact h
    | read hq =>
      refine h.quiet hfinished rfl (fun k hk => Sessions.phase_perform_ne hk) (fun k hk => Sessions.pending_perform_ne hk) ?_
        (h.writes j)
      simp only [Sessions.perform, Sessions.phase_goTo]
      exact hq
    | @write w q hw hq =>
      cases hb : s.blocked j w.keys with
      | true =>
        rw [Sessions.perform_blocked hb]
        exact h
      | false =>
        refine h.quiet hfinished (Sessions.committed_perform (by simp)) (fun k hk => Sessions.phase_perform_ne hk)
          (fun k hk => Sessions.pending_perform_ne hk) ?_ fun w' hw' => ?_
        · rw [Sessions.phase_perform_write hb]
          exact hq
        · rw [Sessions.pending_perform_write hb, List.mem_append, List.mem_singleton] at hw'
          rcases hw' with hw' | rfl
          · exact h.writes j w' hw'
          · exact hw
    | commit hq hend => exact h.commit hfinished hq hend
    | rollback e =>
      refine h.quiet hfinished rfl (fun k hk => Sessions.phase_perform_ne hk) (fun k hk => Sessions.pending_perform_ne hk) ?_
        fun w hw => ?_
      · simp only [Sessions.perform, Sessions.phase_close]
        rfl
      · simp only [Sessions.perform, Sessions.pending_close] at hw
        simp at hw

/-- `k` has found the token unrevoked, and may have been answered. -/
def OnTheWay (D : Deployment) (calls : ι → Call) (r : RefreshToken) (u : User) (k : ι) (s : AuthSessions ι) : Prop :=
  Redeeming D (calls k) r u (s.phase k) (s.pending k) ∨ ∃ pair, s.phase k = .signedIn pair

theorem OnTheWay.step (h : Redeemable D calls token d r u) {s : AuthSessions ι} (hs : Growing D calls d s) {k : ι}
    (hk : OnTheWay D calls r u k s) (j : ι) :
    OnTheWay D calls r u k (s.step (authStatements D calls fun _ => .refresh token) j) := by
  by_cases hj : j = k
  · subst hj
    rcases hk with hway | ⟨pair, hpair⟩
    · have hissuable : Issuable D (calls j) u.id s.committed := by
        refine ⟨fun t ht => ?_, u, ?_, rfl⟩
        · rcases hs.rows t ht with ⟨t', ht', hid, hhash⟩ | ⟨m, hm, hid, hhash⟩
          · rw [← hid, ← hhash]
            exact h.fresh j t' ht'
          · have hne : m ≠ j := by
              rintro rfl
              rw [hway.not_finished] at hm
              exact absurd hm (by simp)
            rw [hid, hhash]
            exact h.distinct m j hne
        · rw [hs.users]
          exact (UserRepository.find_eq_some.mp h.owner).1
      have howner : UserRepository.find r.userId s.committed = some u := by
        rw [UserRepository.find, hs.users]
        exact h.owner
      unfold Sessions.step Sessions.view authStatements
      obtain ⟨q, hq, hnext⟩ | ⟨w, q, hq, hnext⟩ | ⟨-, -, hq⟩ := hway.next (.refresh token) hissuable fun _ => ⟨howner, h.active⟩ <;>
        rw [hq]
      · refine Or.inl ?_
        simp only [Sessions.perform, Sessions.phase_goTo]
        exact hnext
      · cases hb : s.blocked j w.keys with
        | true =>
          rw [Sessions.perform_blocked hb]
          exact Or.inl hway
        | false =>
          refine Or.inl ?_
          rw [Sessions.phase_perform_write hb, Sessions.pending_perform_write hb]
          exact hnext
      · refine Or.inr ⟨pairFor D (calls j) u, ?_⟩
        simp only [Sessions.perform]
        exact Sessions.phase_close
    · rw [Sessions.step, hpair]
      exact Or.inr ⟨pair, hpair⟩
  · unfold OnTheWay Sessions.step
    rw [Sessions.phase_perform_ne (Ne.symm hj), Sessions.pending_perform_ne (Ne.symm hj)]
    exact hk

theorem growing_run (schedule : List ι) : Growing D calls d (runRefreshes D calls token d schedule) :=
  Sessions.play_invariant (fun s j (hs : Growing D calls d s) => hs.step j) growing_start schedule

theorem Redeemable.signedIn (h : Redeemable D calls token d r u) {before after : List ι} {i : ι}
    (hnone : (runRefreshes D calls token d before).commits = []) (hi : (runRefreshes D calls token d before).phase i ≠ .start)
    (hend : (runRefreshes D calls token d (before ++ after)).phase i = .start ∨
      ((runRefreshes D calls token d (before ++ after)).phase i).finished = true) :
    ∃ pair, (runRefreshes D calls token d (before ++ after)).phase i = .signedIn pair := by
  have hway : OnTheWay D calls r u i (runRefreshes D calls token d before) :=
    Or.inl (((h.before_commit hnone).2 i).resolve_left fun hstart => hi hstart.1)
  have hrun : runRefreshes D calls token d (before ++ after) =
      (runRefreshes D calls token d before).play (authStatements D calls fun _ => .refresh token) after := Sessions.play_append
  have hkept : Growing D calls d (runRefreshes D calls token d (before ++ after)) ∧
      OnTheWay D calls r u i (runRefreshes D calls token d (before ++ after)) := by
    rw [hrun]
    exact Sessions.play_invariant (I := fun s => Growing D calls d s ∧ OnTheWay D calls r u i s)
      (fun s j hs => ⟨hs.1.step j, hs.2.step h hs.1 j⟩) ⟨growing_run before, hway⟩ after
  rcases hkept.2 with hredeeming | hpair
  · rcases hend with hstart | hfinished
    · rw [hstart] at hredeeming
      cases hredeeming
    · rw [hredeeming.not_finished] at hfinished
      exact absurd hfinished (by simp)
  · exact hpair

/-- Concurrent refreshes redeem a token once if and only if no two of them have looked it up before the first commit. -/
theorem redeemed_once_iff (h : Redeemable D calls token d r u) (schedule : List ι)
    (hend : ∀ i, (runRefreshes D calls token d schedule).phase i = .start ∨
      ((runRefreshes D calls token d schedule).phase i).finished = true) :
    RedeemedOnce r (runRefreshes D calls token d schedule) ↔
      ∀ before after, schedule = before ++ after → (runRefreshes D calls token d before).commits = [] →
        ∀ i j, (runRefreshes D calls token d before).phase i ≠ .start →
          (runRefreshes D calls token d before).phase j ≠ .start → i = j := by
  constructor
  · rintro ⟨honce, -⟩ before after rfl hnone i j hi hj
    obtain ⟨pair, hpair⟩ := h.signedIn hnone hi (hend i)
    obtain ⟨pair', hpair'⟩ := h.signedIn hnone hj (hend j)
    exact honce i j pair pair' hpair hpair'
  · intro hone
    exact redeemed_once h hend hone

/-! Two requests with the token of one login. -/

def oneLogin : World :=
  playFrom .postgresql World.initial
    (sampleRequests 1 [(none, .register ⟨"a@b.c", "Passw0rd", "A"⟩), (none, .login "a@b.c" "Passw0rd")])

def refreshers (client : Bool) : Call := Call.sample (if client then 3 else 4) none

theorem oneLogin_redeemable : ∃ r u, Redeemable .postgresql refreshers "rr" oneLogin.1 r u := by
  have hfound : (RefreshTokenRepository.withHash (hashRefreshToken .postgresql "rr") oneLogin.1).length = 1 := by decide +kernel
  obtain ⟨r, hr⟩ := List.length_eq_one_iff.mp hfound
  have howner : ((RefreshTokenRepository.withHash (hashRefreshToken .postgresql "rr") oneLogin.1).all fun r =>
      (UserRepository.find r.userId oneLogin.1).any User.isActive) = true := by decide +kernel
  rw [hr] at howner
  simp only [List.all_cons, List.all_nil, Bool.and_true, Option.any_eq_true] at howner
  obtain ⟨u, hu, hactive⟩ := howner
  have hall : oneLogin.1.refreshTokens.rows = RefreshTokenRepository.withHash (hashRefreshToken .postgresql "rr") oneLogin.1 := by
    decide +kernel
  rw [hr] at hall
  have hrow : ∀ t ∈ RefreshTokenRepository.withHash (hashRefreshToken .postgresql "rr") oneLogin.1,
      t.revoked = false ∧ 4000000 < t.expiresAt ∧ t.id = 32 ∧ t.tokenHash = "rr" := by decide +kernel
  obtain ⟨hlive, hexpires, hid, hhash⟩ := hrow r (by rw [hr]; exact List.mem_singleton_self r)
  refine ⟨r, u, hr, hlive, fun t ht _ _ => ?_, fun i => ?_, hu, hactive, fun i t ht => ?_, fun i j hij => ?_⟩
  · rw [hall, List.mem_singleton] at ht
    exact ht
  · have hnow : ∀ i, (refreshers i).now ≤ 4000000 := by decide
    exact (hnow i).trans_lt hexpires
  · rw [hall, List.mem_singleton] at ht
    rw [ht, hid, hhash]
    revert i
    decide +kernel
  · revert i j
    decide +kernel

theorem redeemed_once_iff_sample : ∃ r,
    RedeemedOnce r (runRefreshes .postgresql refreshers "rr" oneLogin.1 (List.replicate 6 true ++ List.replicate 4 false)) ↔
      ∀ before after, List.replicate 6 true ++ List.replicate 4 false = before ++ after →
        (runRefreshes .postgresql refreshers "rr" oneLogin.1 before).commits = [] →
        ∀ i j, (runRefreshes .postgresql refreshers "rr" oneLogin.1 before).phase i ≠ .start →
          (runRefreshes .postgresql refreshers "rr" oneLogin.1 before).phase j ≠ .start → i = j := by
  obtain ⟨r, u, h⟩ := oneLogin_redeemable
  refine ⟨r, redeemed_once_iff h _ fun i => Or.inr ?_⟩
  revert i
  decide +kernel

def AuthPhase.pair? : AuthPhase → Option TokenPair
  | signedIn pair => some pair
  | _ => none

theorem signedIn_of_pair {p : AuthPhase} (h : p.pair?.isSome = true) : ∃ pair, p = .signedIn pair := by
  cases p with
  | signedIn pair => exact ⟨pair, rfl⟩
  | _ => simp [AuthPhase.pair?] at h

/-- Both requests look the token up before either commits: both are answered with a pair, and both new tokens are live. -/
theorem token_redeemed_twice :
    Reachable .postgresql oneLogin ∧ ∃ r u, Redeemable .postgresql refreshers "rr" oneLogin.1 r u ∧
      ¬RedeemedOnce r (runRefreshes .postgresql refreshers "rr" oneLogin.1
        [true, false, true, false, true, false, true, false, true, false, true, false, false]) ∧
      ((runRefreshes .postgresql refreshers "rr" oneLogin.1
        [true, false, true, false, true, false, true, false, true, false, true, false, false]).committed.refreshTokens.rows.filter
          fun t => !t.revoked).length = 2 := by
  obtain ⟨r, u, h⟩ := oneLogin_redeemable
  refine ⟨reachable_of_freshRun (by decide +kernel), r, u, h, ?_, by decide +kernel⟩
  rintro ⟨honce, -⟩
  obtain ⟨pair, hpair⟩ : ∃ pair, (runRefreshes .postgresql refreshers "rr" oneLogin.1
      [true, false, true, false, true, false, true, false, true, false, true, false, false]).phase true = .signedIn pair :=
    signedIn_of_pair (by decide +kernel)
  obtain ⟨pair', hpair'⟩ : ∃ pair, (runRefreshes .postgresql refreshers "rr" oneLogin.1
      [true, false, true, false, true, false, true, false, true, false, true, false, false]).phase false = .signedIn pair :=
    signedIn_of_pair (by decide +kernel)
  exact absurd (honce true false pair pair' hpair hpair') (by simp)

end ProjectManagement
