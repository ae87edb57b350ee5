import ProjectManagement.AccountDeletion
import ProjectManagement.Library.Raising
import ProjectManagement.Library.Rotation
import ProjectManagement.RefreshFamilies

/-!
The refresh tokens as a store of sign-ins: a family of rows amounts to one live secret and the secrets it has
used up, and every request is one move of that store.
-/

namespace ProjectManagement

open Library RefreshTokenRepository

abbrev TokenMove := Move Uuid Uuid String Time

abbrev TokenStore := SignIns Uuid Uuid String Time

variable {D : Deployment} {c : Call} {w : World} {ts ts' : Table RefreshToken} {f : Uuid} {r t : RefreshToken}
  {l : List RefreshToken} {x : SignIn Uuid String Time} {k token : String}

def signIn (l : List RefreshToken) : Option (SignIn Uuid String Time) :=
  l.getLast?.map fun t =>
    ⟨t.userId, (l.filter RefreshToken.revoked).map RefreshToken.tokenHash,
      (l.find? fun t => !t.revoked).map fun t => (t.tokenHash, t.expiresAt)⟩

def signIns (ts : Table RefreshToken) : TokenStore := fun f => signIn (family f ts)

theorem signIn_eq_none : signIn l = none ↔ l = [] := by simp [signIn]

theorem signIn_of_spent (h : ∀ t ∈ l, t.revoked = true) :
    signIn l = l.getLast?.map fun t => ⟨t.userId, l.map RefreshToken.tokenHash, none⟩ := by
  have hfind : (l.find? fun t => !t.revoked) = none := List.find?_eq_none.mpr fun t ht => by simp [h t ht]
  rw [signIn, List.filter_eq_self.mpr h, hfind]
  rfl

theorem signIn_of_live (h : ∀ t ∈ l, t.revoked = true) (live : r.revoked = false) : signIn (l ++ [r]) =
    some ⟨r.userId, l.map RefreshToken.tokenHash, some (r.tokenHash, r.expiresAt)⟩ := by
  have hfind : (l.find? fun t => !t.revoked) = none := List.find?_eq_none.mpr fun t ht => by simp [h t ht]
  rw [signIn, List.filter_append, List.filter_eq_self.mpr h, List.find?_append, hfind]
  simp [live]

theorem signIn_of_revoked (h : ∀ t ∈ l, t.revoked = true) (revoked : r.revoked = true) : signIn (l ++ [r]) =
    some ⟨r.userId, l.map RefreshToken.tokenHash ++ [r.tokenHash], none⟩ := by
  rw [signIn_of_spent]
  · simp
  · intro t ht
    rw [List.mem_append, List.mem_singleton] at ht
    rcases ht with ht | rfl
    · exact h t ht
    · exact revoked

/-- The live token of a family is its last one. -/
theorem FamilyInv.family_cases (inv : FamilyInv ts) (f : Uuid) : (∀ t ∈ family f ts, t.revoked = true) ∨
    ∃ l r, family f ts = l ++ [r] ∧ r.revoked = false ∧ ∀ t ∈ l, t.revoked = true := by
  by_cases hall : ∀ t ∈ family f ts, t.revoked = true
  · exact Or.inl hall
  · simp only [not_forall, exists_prop, Bool.not_eq_true] at hall
    obtain ⟨r, hr, live⟩ := hall
    obtain ⟨hmem, rfl⟩ := mem_family.mp hr
    have hn := inv.live_last hmem live
    obtain ⟨l, hl⟩ := inv.family_eq hmem hn
    refine Or.inr ⟨l, r, hl, live, fun t ht => ?_⟩
    by_contra hlive
    rw [Bool.not_eq_true] at hlive
    have ht' : t ∈ family r.familyId ts := by
      rw [hl]
      exact List.mem_append_left _ ht
    obtain ⟨htm, htf⟩ := mem_family.mp ht'
    obtain ⟨l', hl'⟩ := inv.family_eq htm (inv.live_last htm hlive)
    rw [htf, hl] at hl'
    obtain rfl := List.singleton_inj.mp (List.append_inj_right' hl' rfl)
    exact inv.not_interior hmem hn hl ht rfl

theorem FamilyInv.family_live (inv : FamilyInv ts) (hr : r ∈ ts.rows) (live : r.revoked = false) :
    ∃ l, family r.familyId ts = l ++ [r] ∧ ∀ t ∈ l, t.revoked = true := by
  have hmem : r ∈ family r.familyId ts := mem_family.mpr ⟨hr, rfl⟩
  rcases inv.family_cases r.familyId with hall | ⟨l, s, hl, -, hall⟩
  · rw [hall r hmem] at live
    exact absurd live (by simp)
  · rw [hl, List.mem_append, List.mem_singleton] at hmem
    rcases hmem with hmem | rfl
    · rw [hall r hmem] at live
      exact absurd live (by simp)
    · exact ⟨l, hl, hall⟩

/-! The rows behind what the store shows. -/

theorem row_of_spent (h : signIns ts f = some x) (hk : k ∈ x.spent) :
    ∃ t ∈ ts.rows, t.familyId = f ∧ t.tokenHash = k ∧ t.revoked = true := by
  obtain ⟨last, -, rfl⟩ := Option.map_eq_some_iff.mp h
  obtain ⟨t, ht, rfl⟩ := List.mem_map.mp hk
  obtain ⟨hmem, revoked⟩ := List.mem_filter.mp ht
  obtain ⟨hrow, hf⟩ := mem_family.mp hmem
  exact ⟨t, hrow, hf, rfl, revoked⟩

theorem row_of_secret (h : signIns ts f = some x) (hk : x.secret = some k) :
    ∃ t ∈ ts.rows, t.familyId = f ∧ t.tokenHash = k ∧ t.revoked = false ∧ x.live = some (k, t.expiresAt) := by
  obtain ⟨last, -, rfl⟩ := Option.map_eq_some_iff.mp h
  obtain ⟨e, he, rfl⟩ := Option.map_eq_some_iff.mp hk
  obtain ⟨t, ht, rfl⟩ := Option.map_eq_some_iff.mp he
  have live := List.find?_some ht
  obtain ⟨hrow, hf⟩ := mem_family.mp (List.mem_of_find?_eq_some ht)
  exact ⟨t, hrow, hf, rfl, by simpa using live, he⟩

theorem row_of_secrets (h : signIns ts f = some x) (hk : k ∈ x.secrets) :
    ∃ t ∈ ts.rows, t.familyId = f ∧ t.tokenHash = k := by
  rw [SignIn.secrets, List.mem_append] at hk
  rcases hk with hk | hk
  · obtain ⟨t, ht, hf, hkt, -⟩ := row_of_spent h hk
    exact ⟨t, ht, hf, hkt⟩
  · obtain ⟨t, ht, hf, hkt, -⟩ := row_of_secret h (Option.mem_toList.mp hk)
    exact ⟨t, ht, hf, hkt⟩

theorem spent_of_row (hr : r ∈ ts.rows) (revoked : r.revoked = true) :
    ∃ x, signIns ts r.familyId = some x ∧ r.tokenHash ∈ x.spent := by
  have hmem : r ∈ family r.familyId ts := mem_family.mpr ⟨hr, rfl⟩
  cases hs : signIns ts r.familyId with
  | none =>
    rw [signIns, signIn_eq_none] at hs
    rw [hs] at hmem
    exact absurd hmem (by simp)
  | some x =>
    obtain ⟨last, -, rfl⟩ := Option.map_eq_some_iff.mp hs
    exact ⟨_, rfl, List.mem_map_of_mem (List.mem_filter.mpr ⟨hmem, revoked⟩)⟩

theorem FamilyInv.live_of_row (inv : FamilyInv ts) (hr : r ∈ ts.rows) (live : r.revoked = false) :
    ∃ x, signIns ts r.familyId = some x ∧ x.owner = r.userId ∧ x.live = some (r.tokenHash, r.expiresAt) := by
  obtain ⟨l, hl, hall⟩ := inv.family_live hr live
  exact ⟨_, by rw [signIns, hl, signIn_of_live hall live], rfl, rfl⟩

theorem FamilyInv.secret_iff (inv : FamilyInv ts) (hr : r ∈ ts.rows) (live : r.revoked = false) (hs : signIns ts f = some x) :
    x.secret = some r.tokenHash ↔ f = r.familyId := by
  constructor
  · intro h
    obtain ⟨t, ht, hf, hk, -⟩ := row_of_secret hs h
    rw [← hf, inv.hash t ht r hr hk]
  · rintro rfl
    obtain ⟨y, hy, -, hlive⟩ := inv.live_of_row hr live
    obtain rfl := Option.some.inj (hs.symm.trans hy)
    rw [SignIn.secret, hlive]
    rfl

theorem FamilyInv.spent_iff (inv : FamilyInv ts) (hr : r ∈ ts.rows) (revoked : r.revoked = true) (hs : signIns ts f = some x) :
    r.tokenHash ∈ x.spent ↔ f = r.familyId := by
  constructor
  · intro h
    obtain ⟨t, ht, hf, hk, -⟩ := row_of_spent hs h
    rw [← hf, inv.hash t ht r hr hk]
  · rintro rfl
    obtain ⟨y, hy, hspent⟩ := spent_of_row hr revoked
    obtain rfl := Option.some.inj (hs.symm.trans hy)
    exact hspent

theorem FamilyInv.owner_eq (inv : FamilyInv ts) (hs : signIns ts f = some x) (ht : t ∈ family f ts) : t.userId = x.owner := by
  obtain ⟨last, hlast, rfl⟩ := Option.map_eq_some_iff.mp hs
  obtain ⟨hmem, hf⟩ := mem_family.mp (List.mem_of_getLast? hlast)
  obtain ⟨htm, htf⟩ := mem_family.mp ht
  exact inv.owner t htm last hmem (htf.trans hf.symm)

/-! Each statement on the tokens is a move of the store. -/

theorem signIns_issued (rows : ts'.rows = ts.rows ++ [t]) (new : ∀ y ∈ ts.rows, y.familyId ≠ t.familyId)
    (live : t.revoked = false) : signIns ts' =
      Function.update (signIns ts) t.familyId (some ⟨t.userId, [], some (t.tokenHash, t.expiresAt)⟩) := by
  funext f
  by_cases hf : t.familyId = f
  · subst hf
    have hnil : family t.familyId ts = [] := List.filter_eq_nil_iff.mpr fun y hy => by simpa using new y hy
    rw [Function.update_self, signIns, family, rows, List.filter_append, ← family, hnil]
    simp [signIn, live]
  · rw [Function.update_of_ne (Ne.symm hf), signIns, family, rows, List.filter_append, ← family]
    simp [hf, signIns]

theorem FamilyInv.family_rotated (inv : FamilyInv ts) (hr : r ∈ ts.rows) (live : r.revoked = false)
    (rows : ts'.rows = ts.rows ++ [t]) (same : t.familyId = r.familyId) (successor : Option Uuid)
    (hl : family r.familyId ts = l ++ [r]) :
    family r.familyId (ts'.put (revoked r successor)) = l ++ [revoked r successor, t] := by
  have hmem : r ∈ ts'.rows := by simp [rows, hr]
  have hne : t.id ≠ r.id := (Table.key_ne_of_append rows hr).symm
  rw [family, Table.filter_put_map, rows, List.filter_append, ← family, hl]
  · simp only [List.map_append, inv.map_revoked hr (inv.live_last hr live) hl]
    simp [revoked, same, hne]
  · intro y hy hk
    rw [ts'.eq_of_key hy hmem hk]
    rfl

theorem FamilyInv.signIns_rotated (inv : FamilyInv ts) (hr : r ∈ ts.rows) (live : r.revoked = false)
    (rows : ts'.rows = ts.rows ++ [t]) (same : t.familyId = r.familyId) (owner : t.userId = r.userId) (new : t.revoked = false)
    (successor : Option Uuid) (now : Time) : signIns (ts'.put (revoked r successor)) =
      Move.apply (.redeemed now r.tokenHash t.tokenHash t.expiresAt) (signIns ts) := by
  funext f
  simp only [Move.apply]
  by_cases hf : f = r.familyId
  · subst hf
    obtain ⟨l, hl, hall⟩ := inv.family_live hr live
    have hs : signIns ts r.familyId = some ⟨r.userId, l.map RefreshToken.tokenHash, some (r.tokenHash, r.expiresAt)⟩ := by
      rw [signIns, hl, signIn_of_live hall live]
    rw [hs, Option.map_some, if_pos ((inv.secret_iff hr live hs).mpr rfl), signIns,
      inv.family_rotated hr live rows same successor hl]
    have hspent : ∀ y ∈ l ++ [revoked r successor], y.revoked = true := by
      intro y hy
      rw [List.mem_append, List.mem_singleton] at hy
      rcases hy with hy | rfl
      · exact hall y hy
      · rfl
    have hsplit : l ++ [revoked r successor, t] = (l ++ [revoked r successor]) ++ [t] := by simp
    rw [hsplit, signIn_of_live hspent new, owner]
    simp [SignIn.renew, SignIn.secrets, SignIn.secret, revoked]
  · have hmem : r ∈ ts'.rows := by simp [rows, hr]
    have hother : family f (ts'.put (revoked r successor)) = family f ts := by
      rw [family_put_other hmem (Ne.symm hf), family, rows, List.filter_append, ← family]
      simp [same, Ne.symm hf]
    rw [signIns, hother, ← signIns]
    cases hs : signIns ts f with
    | none => rfl
    | some x => rw [Option.map_some, if_neg fun h => hf ((inv.secret_iff hr live hs).mp h)]

theorem FamilyInv.signIns_revokedOne (inv : FamilyInv ts) (hr : r ∈ ts.rows) (live : r.revoked = false) :
    signIns (ts.put (revoked r none)) = Move.apply (.closed r.tokenHash) (signIns ts) := by
  funext f
  simp only [Move.apply]
  by_cases hf : f = r.familyId
  · subst hf
    obtain ⟨l, hl, hall⟩ := inv.family_live hr live
    have hs : signIns ts r.familyId = some ⟨r.userId, l.map RefreshToken.tokenHash, some (r.tokenHash, r.expiresAt)⟩ := by
      rw [signIns, hl, signIn_of_live hall live]
    have hfam : family r.familyId (ts.put (revoked r none)) = l ++ [revoked r none] := by
      rw [family, Table.filter_put_map, ← family, hl]
      · simp only [List.map_append, inv.map_revoked hr (inv.live_last hr live) hl]
        simp [revoked]
      · intro y hy hk
        rw [ts.eq_of_key hy hr hk]
        rfl
    rw [hs, Option.map_some, if_pos ((inv.secret_iff hr live hs).mpr rfl), signIns, hfam, signIn_of_revoked hall rfl]
    simp [SignIn.close, SignIn.secrets, SignIn.secret, revoked]
  · rw [signIns, family_put_other hr (Ne.symm hf), ← signIns]
    cases hs : signIns ts f with
    | none => rfl
    | some x => rw [Option.map_some, if_neg fun h => hf ((inv.secret_iff hr live hs).mp h)]

/-- A family whose live token a statement revokes is closed. -/
theorem FamilyInv.signIn_revokeWhere (inv : FamilyInv ts) {p : RefreshToken → Bool} (hp : ∀ t ∈ family f ts, p t = true) :
    signIns (revokeWhere p ts) f = (signIns ts f).map SignIn.close := by
  rw [signIns, family, filter_revokeWhere fun _ => rfl, ← family, signIns]
  rcases inv.family_cases f with hall | ⟨l, r, hl, live, hall⟩
  · have hsame : (family f ts).map (fun t => if p t && !t.revoked then { t with revoked := true } else t) = family f ts := by
      conv_rhs => rw [← List.map_id (family f ts)]
      apply List.map_congr_left
      intro t ht
      simp [hall t ht]
    rw [hsame, signIn_of_spent hall, Option.map_map]
    congr 1
    funext t
    simp [SignIn.close, SignIn.secrets, SignIn.secret]
  · have hmap : (l ++ [r]).map (fun t => if p t && !t.revoked then { t with revoked := true } else t) =
        l ++ [{ r with revoked := true }] := by
      rw [List.map_append]
      congr 1
      · conv_rhs => rw [← List.map_id l]
        apply List.map_congr_left
        intro t ht
        simp [hall t ht]
      · simp [hp r (by rw [hl]; simp), live]
    rw [hl, hmap, signIn_of_live hall live, signIn_of_revoked hall rfl]
    simp [SignIn.close, SignIn.secrets, SignIn.secret]

theorem signIns_revokeWhere_of_not {p : RefreshToken → Bool} (hp : ∀ t ∈ family f ts, p t = false) :
    signIns (revokeWhere p ts) f = signIns ts f := by
  rw [signIns, signIns, family, filter_revokeWhere_of_not fun _ => rfl]
  · rfl
  · intro t ht hf
    rw [hp t (List.mem_filter.mpr ⟨ht, hf⟩), Bool.false_and]

theorem FamilyInv.signIns_revokeFamily (inv : FamilyInv ts) (hr : r ∈ ts.rows) (revoked : r.revoked = true) :
    signIns (revokeWhere (fun t => t.familyId == r.familyId) ts) = Move.apply (.replayed r.tokenHash) (signIns ts) := by
  funext f
  simp only [Move.apply]
  by_cases hf : f = r.familyId
  · rw [inv.signIn_revokeWhere fun t ht => by simpa using (mem_family.mp ht).2.trans hf]
    cases hs : signIns ts f with
    | none => rfl
    | some x => rw [Option.map_some, Option.map_some, if_pos ((inv.spent_iff hr revoked hs).mpr hf)]
  · rw [signIns_revokeWhere_of_not fun t ht => by simpa [(mem_family.mp ht).2] using hf]
    cases hs : signIns ts f with
    | none => rfl
    | some x => rw [Option.map_some, if_neg fun h => hf ((inv.spent_iff hr revoked hs).mp h)]

theorem FamilyInv.signIns_revokeUser (inv : FamilyInv ts) (userId : Uuid) :
    signIns (revokeWhere (fun t => t.userId == userId) ts) = Move.apply (.expelled userId) (signIns ts) := by
  funext f
  simp only [Move.apply]
  cases hs : signIns ts f with
  | none =>
    have hnil : family f ts = [] := signIn_eq_none.mp hs
    rw [signIns_revokeWhere_of_not (by simp [hnil]), hs]
    rfl
  | some x =>
    rw [Option.map_some]
    by_cases hx : x.owner = userId
    · rw [if_pos hx, inv.signIn_revokeWhere fun t ht => by simpa using (inv.owner_eq hs ht).trans hx, hs, Option.map_some]
    · rw [if_neg hx, signIns_revokeWhere_of_not fun t ht => ?_, hs]
      simpa using fun h => hx ((inv.owner_eq hs ht).symm.trans h)

theorem FamilyInv.separate (inv : FamilyInv ts) : (signIns ts).Separate where
  apart hx hy hkx hky := by
    obtain ⟨s, hs, rfl, hsk⟩ := row_of_secrets hx hkx
    obtain ⟨t, ht, rfl, htk⟩ := row_of_secrets hy hky
    rw [inv.hash s hs t ht (hsk.trans htk.symm)]
  nodup {f x} hx := by
    have hhash : ((family f ts).map RefreshToken.tokenHash).Nodup := by
      rw [family, List.nodup_map_iff_inj_on ((List.Nodup.of_map _ ts.nodup).filter _)]
      intro s hs t ht he
      exact inv.hash s (mem_family.mp hs).1 t (mem_family.mp ht).1 he
    rcases inv.family_cases f with hall | ⟨l, r, hl, live, hall⟩
    · rw [signIns, signIn_of_spent hall] at hx
      obtain ⟨t, -, rfl⟩ := Option.map_eq_some_iff.mp hx
      simpa [SignIn.secrets, SignIn.secret] using hhash
    · rw [signIns, hl, signIn_of_live hall live] at hx
      obtain rfl := Option.some.inj hx
      rw [hl] at hhash
      simpa [SignIn.secrets, SignIn.secret] using hhash

end ProjectManagement
