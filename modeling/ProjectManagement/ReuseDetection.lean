import ProjectManagement.RefreshTokens

/-! Replaying a rotated refresh token kills its family, for good. -/

namespace ProjectManagement

open Library RefreshTokenRepository

variable {D : Deployment} {c : Call} {w : World} {token : String}

theorem refresh_ok {a : ApiResponse} (h : outcome D ⟨c, .refresh token⟩ w = .ok a) :
    ∃ r ∈ w.1.refreshTokens.rows, r.tokenHash = hashRefreshToken D token ∧
      Spent (hashRefreshToken D token) r.familyId (next D ⟨c, .refresh token⟩ w).1.refreshTokens := by
  have effect := step_effect D ⟨c, .refresh token⟩ w
  rw [h] at effect
  generalize next D ⟨c, .refresh token⟩ w = w' at effect ⊢
  cases effect with
  | answered reads => exact absurd reads (by simp [Request.reads])
  | @rotated _ d _ _ _ r u tokens presented valid owner active hash rows =>
    obtain ⟨hr, hrh⟩ := withHash_eq_singleton presented
    refine ⟨r, hr, hrh, revoked r (some c.fresh.id), ?_, rfl, rfl⟩
    have hmem : r ∈ tokens.rows := by simp [rows, hr]
    have hne : ¬hashRefreshToken D (generateRefreshToken c) = hashRefreshToken D token :=
      fun he => hash r hr (hrh.trans he.symm)
    have hfilter : tokens.rows.filter (fun t => t.tokenHash == hashRefreshToken D token) = [r] := by
      rw [rows, List.filter_append, show d.refreshTokens.rows.filter _ = [r] from presented]
      simp [AuthService.issuedToken, hne]
    rw [Table.filter_put_map, hfilter]
    · simp [revoked]
    · intro x hx hk
      rw [tokens.eq_of_key hx hmem hk]
      rfl

theorem refresh_spent {family : Uuid} (h : Spent (hashRefreshToken D token) family w.1.refreshTokens) :
    step D ⟨c, .refresh token⟩ w = (.error (.app AuthService.reuseDetected),
      { w.1 with refreshTokens := revokeWhere (fun t => t.familyId == family) w.1.refreshTokens }, w.2) := by
  obtain ⟨r, hr, hrev, rfl⟩ := h
  have hp : scalarOneOrNone (withHash (hashRefreshToken D token) w.1) = .ok (some r) :=
    scalarOneOrNone_some.mpr hr
  unfold step
  simp only [handle, Routes.refresh_run, hp, hrev, if_true]

theorem refresh_dead {family : Uuid} {t : RefreshToken} (h : Dead family w.1.refreshTokens)
    (ht : t ∈ w.1.refreshTokens.rows) (hf : t.familyId = family) (hh : hashRefreshToken D token = t.tokenHash) :
    ∃ e, outcome D ⟨c, .refresh token⟩ w = .error e := by
  have effect := step_effect D ⟨c, .refresh token⟩ w
  cases ho : outcome D ⟨c, .refresh token⟩ w with
  | error e => exact ⟨e, rfl⟩
  | ok a =>
    rw [ho] at effect
    generalize next D ⟨c, .refresh token⟩ w = w' at effect
    cases effect with
    | answered reads => exact absurd reads (by simp [Request.reads])
    | @rotated _ d _ _ _ r u tokens presented valid owner active hash rows =>
      have hmem : t ∈ withHash (hashRefreshToken D token) d := by simp [withHash, hh, ht]
      rw [presented, List.mem_singleton] at hmem
      rw [← hmem] at valid
      have := isValid_live valid
      rw [h.2 t ht hf] at this
      exact absurd this (by simp)

/-- The second presentation of a redeemed token is refused as reuse; it revokes every token of the family,
for good and for every token the family may still get, and touches nothing else. -/
theorem reuse_kills_family {c k : Call} {w₀ w₁ : World} {a : ApiResponse} {es : List Event}
    (first : outcome D ⟨c, .refresh token⟩ w₀ = .ok a)
    (run : Execution D FreshFamily (next D ⟨c, .refresh token⟩ w₀) es w₁) :
    ∃ r ∈ w₀.1.refreshTokens.rows, r.tokenHash = hashRefreshToken D token ∧
      outcome D ⟨k, .refresh token⟩ w₁ = .error (.app AuthService.reuseDetected) ∧
      (∀ es' w₂, Execution D FreshFamily (next D ⟨k, .refresh token⟩ w₁) es' w₂ →
        ∀ t ∈ w₂.1.refreshTokens.rows, t.familyId = r.familyId → t.revoked = true ∧
          ∀ c' token', hashRefreshToken D token' = t.tokenHash →
            ∃ e, outcome D ⟨c', .refresh token'⟩ w₂ = .error e) ∧
      (next D ⟨k, .refresh token⟩ w₁).1.refreshTokens.rows.filter (fun t => t.familyId != r.familyId) =
        w₁.1.refreshTokens.rows.filter (fun t => t.familyId != r.familyId) ∧
      next D ⟨k, .refresh token⟩ w₁ =
        ({ w₁.1 with refreshTokens := (next D ⟨k, .refresh token⟩ w₁).1.refreshTokens }, w₁.2) := by
  obtain ⟨r, hr, hrh, hspent⟩ := refresh_ok first
  have spent := run.spent hspent
  have second := refresh_spent (c := k) spent
  have hnext : next D ⟨k, .refresh token⟩ w₁ =
      ({ w₁.1 with refreshTokens := revokeWhere (fun t => t.familyId == r.familyId) w₁.1.refreshTokens }, w₁.2) :=
    congrArg Prod.snd second
  refine ⟨r, hr, hrh, congrArg Prod.fst second, ?_, ?_, by rw [hnext]⟩
  · intro es' w₂ run' t ht htf
    obtain ⟨r₁, hr₁, -, hf₁⟩ := spent
    have hr₁ : r₁ ∈ w₁.1.refreshTokens.rows := by
      have : r₁ ∈ w₁.1.refreshTokens.rows.filter (fun t => t.tokenHash == hashRefreshToken D token) := by simp [hr₁]
      exact (List.mem_filter.mp this).1
    have dead : Dead r.familyId w₂.1.refreshTokens := by
      apply run'.dead
      rw [hnext, ← hf₁]
      exact dead_revokeFamily hr₁
    exact ⟨dead.2 t ht htf, fun c' token' hh => refresh_dead dead ht htf hh⟩
  · rw [hnext]
    apply filter_revokeWhere_of_not fun _ => rfl
    intro t _ ht
    simp only [bne_iff_ne, ne_eq] at ht
    simp [ht]

/-- An account with one session, whose token is `"rr"`. -/
def oneSession : World :=
  playFrom .sample World.initial
    (sampleRequests 1 [(none, .register ⟨"a@b.c", "Passw0rd", "A"⟩), (none, .login "a@b.c" "Passw0rd")])

theorem reuse_kills_family_sample :
    outcome .sample ⟨Call.sample 4 none, .refresh "rr"⟩
      (next .sample ⟨Call.sample 3 none, .refresh "rr"⟩ oneSession) = .error (.app AuthService.reuseDetected) := by
  obtain ⟨a, first⟩ := exists_of_isOk (o := outcome .sample ⟨Call.sample 3 none, .refresh "rr"⟩ oneSession)
    (by decide +kernel)
  obtain ⟨r, -, -, second, -⟩ := reuse_kills_family (k := Call.sample 4 none) first (.nil _)
  exact second

end ProjectManagement
