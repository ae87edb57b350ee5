import ProjectManagement.Library.Chain
import ProjectManagement.ReuseDetection

/-! Every token family is a linear rotation chain. -/

namespace ProjectManagement

open Library RefreshTokenRepository

variable {D : Deployment} {c : Call} {ts ts' : Table RefreshToken} {f : Uuid} {r x : RefreshToken}

/-- The tokens of a family in issue order. -/
def family (f : Uuid) (ts : Table RefreshToken) : List RefreshToken := ts.rows.filter (fun t => t.familyId == f)

theorem mem_family : x ∈ family f ts ↔ x ∈ ts.rows ∧ x.familyId = f := by simp [family]

structure FamilyInv (ts : Table RefreshToken) : Prop where
  chain : ∀ f, Linked RefreshToken.id RefreshToken.replacedById (family f ts)
  owner : ∀ s ∈ ts.rows, ∀ t ∈ ts.rows, s.familyId = t.familyId → s.userId = t.userId
  replaced : ∀ t ∈ ts.rows, t.replacedById ≠ none → t.revoked = true
  hash : ∀ s ∈ ts.rows, ∀ t ∈ ts.rows, s.tokenHash = t.tokenHash → s = t

theorem FamilyInv.empty : FamilyInv Table.empty where
  chain f := by simp [family, Table.empty, Linked]
  owner := by simp [Table.empty]
  replaced := by simp [Table.empty]
  hash := by simp [Table.empty]

theorem FamilyInv.family_eq (inv : FamilyInv ts) (hr : r ∈ ts.rows) (hn : r.replacedById = none) :
    ∃ l, family r.familyId ts = l ++ [r] := by
  have hmem : r ∈ family r.familyId ts := mem_family.mpr ⟨hr, rfl⟩
  have hchain := inv.chain r.familyId
  rcases List.eq_nil_or_concat (family r.familyId ts) with h | ⟨l, x, h⟩
  · rw [h] at hmem
    exact absurd hmem (by simp)
  · rw [List.concat_eq_append] at h
    rw [h] at hmem hchain
    exact ⟨l, by rw [h, hchain.eq_last hmem hn]⟩

theorem FamilyInv.live_last (inv : FamilyInv ts) (hr : r ∈ ts.rows) (live : r.revoked = false) :
    r.replacedById = none := by
  by_contra hn
  rw [inv.replaced r hr hn] at live
  exact absurd live (by simp)

theorem FamilyInv.not_interior (inv : FamilyInv ts) {l : List RefreshToken} (hr : r ∈ ts.rows)
    (hn : r.replacedById = none) (hl : family r.familyId ts = l ++ [r]) (hx : x ∈ l) : x.id ≠ r.id := by
  intro he
  have hchain := inv.chain r.familyId
  rw [hl] at hchain
  have hxm : x ∈ ts.rows := (mem_family.mp (by rw [hl]; simp [hx])).1
  obtain ⟨z, -, hz⟩ := hchain.interior hx
  rw [ts.eq_of_key hxm hr he, hn] at hz
  exact absurd hz (by simp)

theorem FamilyInv.map_revoked (inv : FamilyInv ts) {l : List RefreshToken} (hr : r ∈ ts.rows) (hn : r.replacedById = none)
    (hl : family r.familyId ts = l ++ [r]) (successor : Option Uuid) :
    l.map (fun x => if Keyed.key x = Keyed.key (revoked r successor) then revoked r successor else x) = l := by
  conv_rhs => rw [← List.map_id l]
  apply List.map_congr_left
  intro x hx
  simp [revoked, inv.not_interior hr hn hl hx]

theorem family_put_other (hr : r ∈ ts.rows) (hf : r.familyId ≠ f) (successor : Option Uuid) :
    family f (ts.put (revoked r successor)) = family f ts := by
  apply Table.filter_put
  · intro x hx hk
    rw [ts.eq_of_key hx hr hk]
    simpa using hf
  · simpa [revoked] using hf

theorem TokenStep.origin (h : TokenStep D c ts ts') (hx : x ∈ ts'.rows) :
    (∃ y ∈ ts.rows, y.id = x.id ∧ y.tokenHash = x.tokenHash ∧ y.userId = x.userId ∧ y.familyId = x.familyId) ∨
      (∀ y ∈ ts.rows, y.tokenHash ≠ x.tokenHash) ∧ x.id = c.fresh.id ∧
        (x.familyId = c.fresh.familyId ∨ ∃ y ∈ ts.rows, y.userId = x.userId ∧ y.familyId = x.familyId) := by
  cases h with
  | same => exact Or.inl ⟨x, hx, rfl, rfl, rfl, rfl⟩
  | issued hash rows =>
    simp only [rows, List.mem_append, List.mem_singleton] at hx
    rcases hx with hx | rfl
    · exact Or.inl ⟨x, hx, rfl, rfl, rfl, rfl⟩
    · exact Or.inr ⟨hash, rfl, Or.inl rfl⟩
  | @rotated r ts' mem live hash rows =>
    rcases mem_put_revoked hx with rfl | hx
    · exact Or.inl ⟨r, mem, rfl, rfl, rfl, rfl⟩
    · simp only [rows, List.mem_append, List.mem_singleton] at hx
      rcases hx with hx | rfl
      · exact Or.inl ⟨x, hx, rfl, rfl, rfl, rfl⟩
      · exact Or.inr ⟨hash, rfl, Or.inr ⟨r, mem, rfl, rfl⟩⟩
  | @revokedOne r mem live =>
    rcases mem_put_revoked hx with rfl | hx
    · exact Or.inl ⟨r, mem, rfl, rfl, rfl, rfl⟩
    · exact Or.inl ⟨x, hx, rfl, rfl, rfl, rfl⟩
  | revokedWhere =>
    rcases of_mem_revokeWhere hx with ⟨hx, -⟩ | ⟨y, hy, -, rfl⟩
    · exact Or.inl ⟨x, hx, rfl, rfl, rfl, rfl⟩
    · exact Or.inl ⟨y, hy, rfl, rfl, rfl, rfl⟩

section Preservation

theorem TokenStep.owner (h : TokenStep D c ts ts') (fresh : ∀ t ∈ ts.rows, t.familyId ≠ c.fresh.familyId)
    (inv : FamilyInv ts) : ∀ s ∈ ts'.rows, ∀ t ∈ ts'.rows, s.familyId = t.familyId → s.userId = t.userId := by
  -- a token of `ts'` shares owner and family with an old one, or is the first of its family
  have cases : ∀ x ∈ ts'.rows, (∃ y ∈ ts.rows, y.userId = x.userId ∧ y.familyId = x.familyId) ∨
      x.id = c.fresh.id ∧ x.familyId = c.fresh.familyId := by
    intro x hx
    rcases h.origin hx with ⟨y, hy, -, -, hu, hf⟩ | ⟨-, hid, hf | ⟨y, hy, hu, hf⟩⟩
    · exact Or.inl ⟨y, hy, hu, hf⟩
    · exact Or.inr ⟨hid, hf⟩
    · exact Or.inl ⟨y, hy, hu, hf⟩
  intro s hs t ht he
  rcases cases s hs with ⟨s₀, hs₀, hsu, hsf⟩ | ⟨hsi, hsf⟩
  · rcases cases t ht with ⟨t₀, ht₀, htu, htf⟩ | ⟨-, htf⟩
    · exact hsu.symm.trans ((inv.owner s₀ hs₀ t₀ ht₀ (hsf.trans (he.trans htf.symm))).trans htu)
    · exact absurd (hsf.trans (he.trans htf)) (fresh s₀ hs₀)
  · rcases cases t ht with ⟨t₀, ht₀, -, htf⟩ | ⟨hti, -⟩
    · exact absurd (htf.trans (he.symm.trans hsf)) (fresh t₀ ht₀)
    · rw [ts'.eq_of_key hs ht (hsi.trans hti.symm)]

theorem TokenStep.hash (h : TokenStep D c ts ts') (inv : FamilyInv ts) :
    ∀ s ∈ ts'.rows, ∀ t ∈ ts'.rows, s.tokenHash = t.tokenHash → s = t := by
  intro s hs t ht he
  rcases h.origin hs with ⟨s₀, hs₀, hsi, hsh, -⟩ | ⟨hnew, hsi, -⟩
  · rcases h.origin ht with ⟨t₀, ht₀, hti, hth, -⟩ | ⟨hnew', -, -⟩
    · obtain rfl := inv.hash s₀ hs₀ t₀ ht₀ (hsh.trans (he.trans hth.symm))
      exact ts'.eq_of_key hs ht (hsi.symm.trans hti)
    · exact absurd (hsh.trans he) (hnew' s₀ hs₀)
  · rcases h.origin ht with ⟨t₀, ht₀, -, hth, -⟩ | ⟨-, hti, -⟩
    · exact absurd (hth.trans he.symm) (hnew t₀ ht₀)
    · exact ts'.eq_of_key hs ht (hsi.trans hti.symm)

theorem TokenStep.replaced (h : TokenStep D c ts ts') (inv : FamilyInv ts) :
    ∀ t ∈ ts'.rows, t.replacedById ≠ none → t.revoked = true := by
  intro t ht hn
  cases h with
  | same => exact inv.replaced t ht hn
  | issued hash rows =>
    simp only [rows, List.mem_append, List.mem_singleton] at ht
    rcases ht with ht | rfl
    · exact inv.replaced t ht hn
    · exact absurd rfl hn
  | @rotated r ts' mem live hash rows =>
    rcases mem_put_revoked ht with rfl | ht
    · rfl
    · simp only [rows, List.mem_append, List.mem_singleton] at ht
      rcases ht with ht | rfl
      · exact inv.replaced t ht hn
      · exact absurd rfl hn
  | @revokedOne r mem live =>
    rcases mem_put_revoked ht with rfl | ht
    · rfl
    · exact inv.replaced t ht hn
  | revokedWhere =>
    rcases of_mem_revokeWhere ht with ⟨ht, -⟩ | ⟨y, hy, -, rfl⟩
    · exact inv.replaced t ht hn
    · rfl

theorem TokenStep.chain (h : TokenStep D c ts ts') (fresh : ∀ t ∈ ts.rows, t.familyId ≠ c.fresh.familyId)
    (inv : FamilyInv ts) : Linked RefreshToken.id RefreshToken.replacedById (family f ts') := by
  cases h with
  | same => exact inv.chain f
  | @issued userId ts' hash rows =>
    by_cases hf : c.fresh.familyId = f
    · have hnil : family f ts = [] := by
        rw [family, List.filter_eq_nil_iff]
        intro t ht
        simpa [← hf] using fresh t ht
      rw [family, rows, List.filter_append, ← family, hnil]
      simp [AuthService.issuedToken, hf, Linked]
    · rw [family, rows, List.filter_append, ← family]
      simp [AuthService.issuedToken, hf, inv.chain f]
  | @rotated r ts' mem live hash rows =>
    have hn := inv.live_last mem live
    have hmem : r ∈ ts'.rows := by simp [rows, mem]
    by_cases hf : r.familyId = f
    · subst hf
      obtain ⟨l, hl⟩ := inv.family_eq mem hn
      have hchain := inv.chain r.familyId
      rw [hl] at hchain
      have hne : c.fresh.id ≠ r.id := (Table.key_ne_of_append rows mem).symm
      have hfam : family r.familyId (ts'.put (revoked r (some c.fresh.id))) =
          l ++ [revoked r (some c.fresh.id), AuthService.issuedToken D c r.userId r.familyId] := by
        rw [family, Table.filter_put_map, rows, List.filter_append, ← family, hl]
        · simp only [List.map_append, inv.map_revoked mem hn hl]
          simp [AuthService.issuedToken, revoked, hne]
        · intro x hx hk
          rw [ts'.eq_of_key hx hmem hk]
          rfl
      rw [hfam]
      exact hchain.extend rfl rfl rfl
    · rw [family_put_other hmem hf, family, rows, List.filter_append, ← family]
      simp [AuthService.issuedToken, hf, inv.chain f]
  | @revokedOne r mem live =>
    have hn := inv.live_last mem live
    by_cases hf : r.familyId = f
    · subst hf
      obtain ⟨l, hl⟩ := inv.family_eq mem hn
      have hchain := inv.chain r.familyId
      rw [hl] at hchain
      have hfam : family r.familyId (ts.put (revoked r none)) = l ++ [revoked r none] := by
        rw [family, Table.filter_put_map, ← family, hl]
        · simp only [List.map_append, inv.map_revoked mem hn hl]
          simp [revoked]
        · intro x hx hk
          rw [ts.eq_of_key hx mem hk]
          rfl
      rw [hfam]
      exact hchain.replaceLast rfl rfl
    · rw [family_put_other mem hf]
      exact inv.chain f
  | revokedWhere =>
    rw [family, filter_revokeWhere fun _ => rfl, ← family]
    apply (inv.chain f).map
    · intro a
      split <;> rfl
    · intro a
      split <;> rfl

end Preservation

theorem TokenStep.familyInv (h : TokenStep D c ts ts') (fresh : ∀ t ∈ ts.rows, t.familyId ≠ c.fresh.familyId)
    (inv : FamilyInv ts) : FamilyInv ts' where
  chain _ := h.chain fresh inv
  owner := h.owner fresh inv
  replaced := h.replaced inv
  hash := h.hash inv

theorem Execution.familyInv {w w' : World} {es : List Event} (run : Execution D FreshIds w es w')
    (inv : FamilyInv w.1.refreshTokens) : FamilyInv w'.1.refreshTokens :=
  run.invariant (I := fun w => FamilyInv w.1.refreshTokens)
    (fun e w fresh inv => (nextWorld_tokenStep D e w).familyInv fresh.family inv) inv

theorem Reachable.familyInv {w : World} (h : Reachable D w) : FamilyInv w.1.refreshTokens := by
  obtain ⟨es, run⟩ := h
  exact run.familyInv FamilyInv.empty

theorem FamilyInv.dead (inv : FamilyInv ts) (hr : r ∈ ts.rows) (hrev : r.revoked = true)
    (hn : r.replacedById = none) : Dead r.familyId ts := by
  refine ⟨⟨r, hr, rfl⟩, fun x hx hf => ?_⟩
  obtain ⟨l, hl⟩ := inv.family_eq hr hn
  have hchain := inv.chain r.familyId
  rw [hl] at hchain
  have hmem : x ∈ l ++ [r] := by
    rw [← hl]
    exact mem_family.mpr ⟨hx, hf⟩
  by_cases hnx : x.replacedById = none
  · rw [hchain.eq_last hmem hnx]
    exact hrev
  · exact inv.replaced x hx hnx

theorem FamilyInv.spent (inv : FamilyInv ts) (hr : r ∈ ts.rows) (hrev : r.revoked = true) :
    Spent r.tokenHash r.familyId ts := by
  refine ⟨r, ts.filter_eq_singleton hr fun y hy => ?_, hrev, rfl⟩
  rw [beq_iff_eq]
  exact ⟨inv.hash y hy r hr, fun h => by rw [h]⟩

/-- A linear rotation chain, in issue order. -/
structure RotationChain (chain : List RefreshToken) : Prop where
  owner : ∀ s ∈ chain, ∀ t ∈ chain, s.userId = t.userId
  next : ∀ i (hi : i < chain.length) (hs : i + 1 < chain.length), chain[i].revoked = true ∧
    chain[i].replacedById = some chain[i + 1].id
  last : ∀ t, chain.getLast? = some t → t.replacedById = none
  reaches : ∀ s ∈ chain, ∀ t, chain.getLast? = some t →
    Relation.ReflTransGen (fun a b => b ∈ chain ∧ a.replacedById = some b.id) s t
  live : ∀ s ∈ chain, s.revoked = false → chain.getLast? = some s

theorem FamilyInv.rotationChain (inv : FamilyInv ts) (f : Uuid) : RotationChain (family f ts) where
  owner s hs t ht :=
    inv.owner s (mem_family.mp hs).1 t (mem_family.mp ht).1 ((mem_family.mp hs).2.trans (mem_family.mp ht).2.symm)
  next i hi hs := by
    have hn := (inv.chain f).getElem hi hs
    refine ⟨inv.replaced _ (mem_family.mp (List.getElem_mem _)).1 ?_, hn⟩
    rw [hn]
    simp
  last t ht := by
    obtain ⟨l, hl⟩ := List.getLast?_eq_some_iff.mp ht
    have hchain := inv.chain f
    rw [hl] at hchain
    exact hchain.last
  reaches s hs t ht := by
    obtain ⟨l, hl⟩ := List.getLast?_eq_some_iff.mp ht
    have hchain := inv.chain f
    rw [hl] at hchain hs ⊢
    exact hchain.reaches hs
  live s hs hlive := by
    obtain ⟨hmem, rfl⟩ := mem_family.mp hs
    obtain ⟨l, hl⟩ := inv.family_eq hmem (inv.live_last hmem hlive)
    rw [hl]
    simp

theorem killed_has_successor {w : World} {token : String} (inv : FamilyInv w.1.refreshTokens)
    (presented : withHash (hashRefreshToken D token) w.1 = [r]) (hrev : r.revoked = true) {t t' : RefreshToken}
    (ht : t ∈ w.1.refreshTokens.rows) (live : t.revoked = false)
    (ht' : t' ∈ (next D ⟨c, .refresh token⟩ w).1.refreshTokens.rows) (hid : t'.id = t.id) (killed : t'.revoked = true) :
    r.replacedById ≠ none := by
  intro hn
  obtain ⟨hr, hrh⟩ := withHash_eq_singleton presented
  have dead := inv.dead hr hrev hn
  have hstep := refresh_spent (c := c) (hrh ▸ inv.spent hr hrev)
  have hnext := congrArg (fun s => s.2.1.refreshTokens) hstep
  change (next D ⟨c, .refresh token⟩ w).1.refreshTokens = _ at hnext
  rw [hnext] at ht'
  rcases of_mem_revokeWhere ht' with ⟨ht', -⟩ | ⟨y, hy, hyf, rfl⟩
  · rw [w.1.refreshTokens.eq_of_key ht' ht hid, live] at killed
    exact absurd killed (by simp)
  · obtain rfl : y = t := w.1.refreshTokens.eq_of_key hy ht hid
    rw [dead.2 y hy (by simpa using hyf)] at live
    exact absurd live (by simp)

theorem replay_dead {w : World} {token : String} {tokenHash : String} (spent : Spent tokenHash f w.1.refreshTokens)
    (dead : Dead f w.1.refreshTokens) (hh : hashRefreshToken D token = tokenHash) :
    (next D ⟨c, .refresh token⟩ w).1.refreshTokens = w.1.refreshTokens := by
  have hstep := refresh_spent (c := c) (hh ▸ spent)
  have hnext := congrArg (fun s => s.2.1.refreshTokens) hstep
  change (next D ⟨c, .refresh token⟩ w).1.refreshTokens = _ at hnext
  rw [hnext]
  apply Table.ext
  simp only [revokeWhere, Table.updateWhere]
  conv_rhs => rw [← List.map_id w.1.refreshTokens.rows]
  apply List.map_congr_left
  intro x hx
  by_cases hf : x.familyId = f
  · simp [dead.2 x hx hf]
  · simp [hf]

def Request.endsSessions : Request → Bool
  | .logout _ => true
  | .changePassword _ => true
  | _ => false

theorem ended_no_successor {i : Input} {w : World} {o : Outcome} {w' : World} (h : Effect D i w o w')
    (ends : i.request.endsSessions = true) (inv : FamilyInv w.1.refreshTokens) {r' : RefreshToken}
    (hr : r ∈ w.1.refreshTokens.rows) (live : r.revoked = false) (hr' : r' ∈ w'.1.refreshTokens.rows)
    (hid : r'.id = r.id) (hrev : r'.revoked = true) : r'.replacedById = none := by
  have same : ∀ {x}, x ∈ w.1.refreshTokens.rows → x.id = r.id → x = r := fun hx he =>
    w.1.refreshTokens.eq_of_key hx hr he
  have hn := inv.live_last hr live
  cases h with
  | rejected => rw [same hr' hid]; exact hn
  | nothingToLogOut presented => rw [same hr' hid]; exact hn
  | loggedOut presented _ =>
    rcases mem_put_revoked hr' with rfl | hr'
    · rfl
    · rw [same hr' hid]; exact hn
  | passwordChanged caller errors verified policy hash =>
    rcases of_mem_revokeWhere hr' with ⟨hr', -⟩ | ⟨y, hy, -, rfl⟩
    · rw [same hr' hid]; exact hn
    · obtain rfl := same hy hid
      exact hn
  | answered reads =>
    rcases i with ⟨c, request⟩
    cases request <;> simp [Request.endsSessions, Request.reads] at ends reads
  | _ => simp [Request.endsSessions] at ends

/-- In every reachable state each family is a rotation chain; only the replay of a token that was rotated can
revoke a live token, and the replay of one revoked by a logout or a password change changes no token at all. -/
theorem families_are_chains {w : World} (h : Reachable D w) :
    (∀ f, RotationChain (family f w.1.refreshTokens)) ∧
      (∀ c token r, withHash (hashRefreshToken D token) w.1 = [r] → r.revoked = true →
        (∃ t ∈ w.1.refreshTokens.rows, t.revoked = false ∧
          ∃ t' ∈ (next D ⟨c, .refresh token⟩ w).1.refreshTokens.rows, t'.id = t.id ∧ t'.revoked = true) →
        r.replacedById ≠ none) ∧
      ∀ i, i.request.endsSessions = true → FreshIds (.request i) w →
        ∀ r ∈ w.1.refreshTokens.rows, r.revoked = false →
        ∀ r' ∈ (next D i w).1.refreshTokens.rows, r'.id = r.id → r'.revoked = true →
        ∀ es w', Execution D FreshIds (next D i w) es w' →
        ∀ c token, hashRefreshToken D token = r'.tokenHash →
          (next D ⟨c, .refresh token⟩ w').1.refreshTokens = w'.1.refreshTokens := by
  have inv := h.familyInv
  refine ⟨inv.rotationChain, ?_, ?_⟩
  · rintro c token r presented hrev ⟨t, ht, live, t', ht', hid, killed⟩
    exact killed_has_successor inv presented hrev ht live ht' hid killed
  · intro i ends fresh r hr live r' hr' hid hrev es w' run c token hh
    have hn := ended_no_successor (step_effect D i w) ends inv hr live hr' hid hrev
    have inv' : FamilyInv (next D i w).1.refreshTokens :=
      (nextWorld_tokenStep D (.request i) w).familyInv fresh.family inv
    have spent := run.spent (inv'.spent hr' hrev)
    have dead := Execution.dead (run.mono fun _ _ => FreshIds.family) (inv'.dead hr' hrev hn)
    exact replay_dead spent dead hh

def twoSessions : List Event :=
  sampleRequests 1 [(none, .register ⟨"a@b.c", "Passw0rd", "A"⟩), (none, .login "a@b.c" "Passw0rd"),
    (none, .refresh "rr"), (none, .logout "rrr"), (none, .login "a@b.c" "Passw0rd")]

theorem families_are_chains_sample :
    RotationChain (family (Call.sample 2 none).fresh.familyId
      (playFrom .sample World.initial twoSessions).1.refreshTokens) :=
  (families_are_chains (reachable_of_freshRun (by decide +kernel))).1 _

end ProjectManagement
