import ProjectManagement.System

/-! What one request may do to the refresh tokens, and what follows for a family that is dead. -/

namespace ProjectManagement

open Library RefreshTokenRepository

inductive TokenStep (D : Deployment) (c : Call) (ts : Table RefreshToken) : Table RefreshToken → Prop
  | same : TokenStep D c ts ts
  | issued {userId} {ts' : Table RefreshToken}
      (hash : ∀ r ∈ ts.rows, r.tokenHash ≠ hashRefreshToken D c.fresh.refreshToken)
      (rows : ts'.rows = ts.rows ++ [AuthService.issuedToken D c userId c.fresh.familyId]) : TokenStep D c ts ts'
  | rotated {r} {ts' : Table RefreshToken} (mem : r ∈ ts.rows) (live : r.revoked = false)
      (hash : ∀ r ∈ ts.rows, r.tokenHash ≠ hashRefreshToken D c.fresh.refreshToken)
      (rows : ts'.rows = ts.rows ++ [AuthService.issuedToken D c r.userId r.familyId]) :
      TokenStep D c ts (ts'.put (revoked r (some c.fresh.id)))
  | revokedOne {r} (mem : r ∈ ts.rows) (live : r.revoked = false) : TokenStep D c ts (ts.put (revoked r none))
  | revokedWhere {p} : TokenStep D c ts (revokeWhere p ts)

theorem isValid_live {c : Call} {r : RefreshToken} (h : isValid c r = true) : r.revoked = false := by
  simp only [isValid, Bool.and_eq_true, Bool.not_eq_true'] at h
  exact h.1

theorem Effect.tokenStep {D : Deployment} {i : Input} {w w' : World} {o : Outcome} (h : Effect D i w o w') :
    TokenStep D i.call w.1.refreshTokens w'.1.refreshTokens := by
  cases h with
  | loggedIn account verified active hash rows => exact .issued hash rows
  | rotated presented valid owner active hash rows =>
    exact .rotated (withHash_eq_singleton presented).1 (isValid_live valid) hash rows
  | reuseDetected presented revoked => exact .revokedWhere
  | loggedOut presented live => exact .revokedOne (withHash_eq_singleton presented).1 live
  | passwordChanged caller errors verified policy hash => exact .revokedWhere
  | _ => exact .same

theorem nextWorld_tokenStep (D : Deployment) (e : Event) (w : World) :
    TokenStep D e.call w.1.refreshTokens (nextWorld D e w).1.refreshTokens := by
  refine nextWorld_cases (P := fun w' => TokenStep D e.call w.1.refreshTokens w'.1.refreshTokens) e ?_ .same ?_
  · rintro i o w' rfl h
    exact h.tokenStep
  · intro users u _ _ _
    exact .same

theorem mem_put_revoked {ts : Table RefreshToken} {r x : RefreshToken} {o : Option Uuid}
    (h : x ∈ (ts.put (revoked r o)).rows) : x = revoked r o ∨ x ∈ ts.rows := by
  rcases Table.of_mem_put h with h | h
  · exact Or.inl h
  · exact Or.inr h.1

section DeadFamilies

variable {D : Deployment} {c : Call} {ts ts' : Table RefreshToken} {family : Uuid} {tokenHash : String}

def Dead (family : Uuid) (ts : Table RefreshToken) : Prop :=
  (∃ r ∈ ts.rows, r.familyId = family) ∧ ∀ r ∈ ts.rows, r.familyId = family → r.revoked = true

theorem Dead.revokeWhere {p : RefreshToken → Bool} (h : Dead family ts) : Dead family (revokeWhere p ts) := by
  obtain ⟨⟨r, hr, hf⟩, hall⟩ := h
  constructor
  · exact ⟨r, Table.mem_updateWhere.mpr (Or.inl ⟨hr, by simp [hall r hr hf]⟩), hf⟩
  · intro x hx hxf
    rcases of_mem_revokeWhere hx with ⟨hx, -⟩ | ⟨y, -, -, rfl⟩
    · exact hall x hx hxf
    · rfl

theorem dead_revokeFamily {r : RefreshToken} (hr : r ∈ ts.rows) :
    Dead r.familyId (RefreshTokenRepository.revokeWhere (fun t => t.familyId == r.familyId) ts) := by
  constructor
  · by_cases hrev : r.revoked = true
    · exact ⟨r, Table.mem_updateWhere.mpr (Or.inl ⟨hr, by simp [hrev]⟩), rfl⟩
    · exact ⟨_, Table.mem_updateWhere.mpr (Or.inr ⟨r, hr, by simp [hrev], rfl⟩), rfl⟩
  · intro x hx hxf
    rcases of_mem_revokeWhere hx with ⟨-, hx⟩ | ⟨y, -, -, rfl⟩
    · exact hx (by simpa using hxf)
    · rfl

theorem TokenStep.dead (h : TokenStep D c ts ts') (fresh : ∀ t ∈ ts.rows, t.familyId ≠ c.fresh.familyId)
    (hd : Dead family ts) : Dead family ts' := by
  obtain ⟨⟨r₀, hr₀, hf₀⟩, hall⟩ := id hd
  cases h with
  | same => exact hd
  | issued hash rows =>
    refine ⟨⟨r₀, by simp [rows, hr₀], hf₀⟩, fun x hx hxf => ?_⟩
    simp only [rows, List.mem_append, List.mem_singleton] at hx
    rcases hx with hx | rfl
    · exact hall x hx hxf
    · exact absurd (hf₀.trans hxf.symm) (fresh r₀ hr₀)
  | @rotated r ts' mem live hash rows =>
    have hne : r.familyId ≠ family := fun he => by
      rw [hall r mem he] at live
      exact absurd live (by simp)
    refine ⟨⟨r₀, Table.mem_put.mpr (Or.inl ⟨by simp [rows, hr₀], fun he => ?_⟩), hf₀⟩, fun x hx hxf => ?_⟩
    · have : r₀ = r := ts.eq_of_key hr₀ mem he
      exact hne (this ▸ hf₀)
    · rcases mem_put_revoked hx with rfl | hx
      · rfl
      · simp only [rows, List.mem_append, List.mem_singleton] at hx
        rcases hx with hx | rfl
        · exact hall x hx hxf
        · exact absurd hxf hne
  | @revokedOne r mem live =>
    have hne : r₀.id ≠ r.id := fun he => by
      obtain rfl : r₀ = r := ts.eq_of_key hr₀ mem he
      rw [hall r₀ mem hf₀] at live
      exact absurd live (by simp)
    refine ⟨⟨r₀, Table.mem_put.mpr (Or.inl ⟨hr₀, hne⟩), hf₀⟩, fun x hx hxf => ?_⟩
    rcases mem_put_revoked hx with rfl | hx
    · rfl
    · exact hall x hx hxf
  | revokedWhere => exact hd.revokeWhere

theorem Execution.dead {w w' : World} {es : List Event} (run : Execution D FreshFamily w es w')
    (hd : Dead family w.1.refreshTokens) : Dead family w'.1.refreshTokens :=
  run.invariant (I := fun w => Dead family w.1.refreshTokens)
    (fun e w fresh hd => (nextWorld_tokenStep D e w).dead fresh hd) hd

/-- A token that has been revoked, as the lookup by its hash finds it. -/
def Spent (tokenHash : String) (family : Uuid) (ts : Table RefreshToken) : Prop :=
  ∃ r, ts.rows.filter (fun t => t.tokenHash == tokenHash) = [r] ∧ r.revoked = true ∧ r.familyId = family

theorem TokenStep.spent (h : TokenStep D c ts ts') (hs : Spent tokenHash family ts) : Spent tokenHash family ts' := by
  obtain ⟨r₀, hr₀, hrev, hf⟩ := id hs
  have hmem : r₀ ∈ ts.rows ∧ r₀.tokenHash = tokenHash := by
    have : r₀ ∈ ts.rows.filter (fun t => t.tokenHash == tokenHash) := by simp [hr₀]
    simpa using this
  -- the row of a spent token is not the live row that a step writes
  have hother : ∀ r ∈ ts.rows, r.revoked = false → r.tokenHash ≠ tokenHash := by
    intro r hr live he
    have : r ∈ ts.rows.filter (fun t => t.tokenHash == tokenHash) := by simp [hr, he]
    rw [hr₀, List.mem_singleton] at this
    rw [this, hrev] at live
    exact absurd live (by simp)
  have hnew : ∀ u f, (∀ r ∈ ts.rows, r.tokenHash ≠ hashRefreshToken D c.fresh.refreshToken) →
      (ts.rows ++ [AuthService.issuedToken D c u f]).filter (fun t => t.tokenHash == tokenHash) = [r₀] := by
    intro u f hash
    have hne : ¬hashRefreshToken D (generateRefreshToken c) = tokenHash := fun he => hash r₀ hmem.1 (hmem.2.trans he.symm)
    simp [List.filter_append, hr₀, AuthService.issuedToken, hne]
  cases h with
  | same => exact hs
  | issued hash rows => exact ⟨r₀, by rw [rows]; exact hnew _ _ hash, hrev, hf⟩
  | @rotated r ts' mem live hash rows =>
    have hne := hother r mem live
    refine ⟨r₀, ?_, hrev, hf⟩
    rw [Table.filter_put _ (by simp [revoked, hne]), rows]
    · exact hnew _ _ hash
    · intro x hx hk
      have : x = r := ts'.eq_of_key hx (by simp [rows, mem]) hk
      simp [this, hne]
  | @revokedOne r mem live =>
    have hne := hother r mem live
    refine ⟨r₀, ?_, hrev, hf⟩
    rw [Table.filter_put _ (by simp [revoked, hne])]
    · exact hr₀
    · intro x hx hk
      have : x = r := ts.eq_of_key hx mem hk
      simp [this, hne]
  | revokedWhere =>
    refine ⟨r₀, ?_, hrev, hf⟩
    rw [filter_revokeWhere fun _ => rfl, hr₀]
    simp [hrev]

theorem Execution.spent {ok : Event → World → Prop} {w w' : World} {es : List Event} (run : Execution D ok w es w')
    (hs : Spent tokenHash family w.1.refreshTokens) : Spent tokenHash family w'.1.refreshTokens :=
  run.invariant (I := fun w => Spent tokenHash family w.1.refreshTokens)
    (fun e w _ hs => (nextWorld_tokenStep D e w).spent hs) hs

end DeadFamilies

end ProjectManagement
