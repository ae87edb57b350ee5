import Mathlib.Data.List.Nodup
import ProjectManagement.Library.Refinement

/-!
Rotating secrets. A sign-in holds one live secret, which is exchanged for the next one when it is redeemed;
a secret that is spent is never redeemed again.
-/

namespace ProjectManagement.Library

structure SignIn (υ κ τ : Type) where
  owner : υ
  spent : List κ
  live : Option (κ × τ)
  deriving DecidableEq

abbrev SignIns (φ υ κ τ : Type) := φ → Option (SignIn υ κ τ)

inductive Move (φ υ κ τ : Type)
  | opened (family : φ) (owner : υ) (secret : κ) (expires : τ)
  | redeemed (now : τ) (old new : κ) (expires : τ)
  | replayed (old : κ)
  | closed (secret : κ)
  | expelled (owner : υ)
  | idle

namespace SignIn

variable {υ κ τ : Type}

def secret (x : SignIn υ κ τ) : Option κ := x.live.map Prod.fst

/-- Every secret the sign-in has ever held. -/
def secrets (x : SignIn υ κ τ) : List κ := x.spent ++ x.secret.toList

def close (x : SignIn υ κ τ) : SignIn υ κ τ := ⟨x.owner, x.secrets, none⟩

def renew (x : SignIn υ κ τ) (secret : κ) (expires : τ) : SignIn υ κ τ := ⟨x.owner, x.secrets, some (secret, expires)⟩

@[simp] theorem secrets_close (x : SignIn υ κ τ) : x.close.secrets = x.secrets := by simp [close, secrets, secret]

@[simp] theorem secrets_renew (x : SignIn υ κ τ) (k : κ) (e : τ) : (x.renew k e).secrets = x.secrets ++ [k] := by
  simp [renew, secrets, secret]

theorem mem_secrets_of_spent {x : SignIn υ κ τ} {k : κ} (h : k ∈ x.spent) : k ∈ x.secrets :=
  List.mem_append_left _ h

theorem mem_secrets_of_secret {x : SignIn υ κ τ} {k : κ} (h : x.secret = some k) : k ∈ x.secrets := by
  simp [secrets, h]

end SignIn

namespace SignIns

variable {φ υ κ τ : Type} {s : SignIns φ υ κ τ} {x y : SignIn υ κ τ} {f g : φ} {k : κ}

def Spent (s : SignIns φ υ κ τ) (k : κ) : Prop := ∃ f x, s f = some x ∧ k ∈ x.spent

def Live (s : SignIns φ υ κ τ) (k : κ) (x : SignIn υ κ τ) : Prop := (∃ f, s f = some x) ∧ x.secret = some k

def Unused (s : SignIns φ υ κ τ) (k : κ) : Prop := ∀ f x, s f = some x → k ∉ x.secrets

/-- No secret occurs twice, neither in two sign-ins nor in one. -/
structure Separate (s : SignIns φ υ κ τ) : Prop where
  apart : ∀ {f g x y k}, s f = some x → s g = some y → k ∈ x.secrets → k ∈ y.secrets → f = g
  nodup : ∀ {f x}, s f = some x → x.secrets.Nodup

theorem separate_none : Separate (fun _ => none : SignIns φ υ κ τ) where
  apart hf := by simp at hf
  nodup hf := by simp at hf

theorem Separate.not_spent (h : s.Separate) (live : s.Live k x) : ¬s.Spent k := by
  rintro ⟨g, y, hy, hspent⟩
  obtain ⟨⟨f, hx⟩, hsecret⟩ := live
  obtain rfl := h.apart hx hy (SignIn.mem_secrets_of_secret hsecret) (SignIn.mem_secrets_of_spent hspent)
  obtain rfl := Option.some.inj (hx.symm.trans hy)
  have hnodup := h.nodup hx
  rw [SignIn.secrets, hsecret, Option.toList_some, List.nodup_append] at hnodup
  exact hnodup.2.2 k hspent k (by simp) rfl

end SignIns

namespace Move

variable {φ υ κ τ : Type} [DecidableEq φ] [DecidableEq υ] [DecidableEq κ] {m : Move φ υ κ τ} {s t : SignIns φ υ κ τ}
  {x y : SignIn υ κ τ} {f : φ} {k : κ}

def apply (m : Move φ υ κ τ) (s : SignIns φ υ κ τ) : SignIns φ υ κ τ :=
  match m with
  | opened family owner secret expires => Function.update s family (some ⟨owner, [], some (secret, expires)⟩)
  | redeemed _ old new expires => fun f => (s f).map fun x => if x.secret = some old then x.renew new expires else x
  | replayed old => fun f => (s f).map fun x => if old ∈ x.spent then x.close else x
  | closed secret => fun f => (s f).map fun x => if x.secret = some secret then x.close else x
  | expelled owner => fun f => (s f).map fun x => if x.owner = owner then x.close else x
  | idle => s

def Enabled [LT τ] (m : Move φ υ κ τ) (s : SignIns φ υ κ τ) : Prop :=
  match m with
  | opened family _ secret _ => s family = none ∧ s.Unused secret
  | redeemed now old new _ => (∃ x e, s.Live old x ∧ x.live = some (old, e) ∧ now < e) ∧ s.Unused new
  | replayed old => s.Spent old
  | closed _ => True
  | expelled _ => True
  | idle => True

/-- What a move leaves in a place: a sign-in it does not prolong, one it prolongs, or a new one. -/
theorem apply_eq_some [LT τ] (enabled : m.Enabled s) (h : m.apply s f = some y) :
    (∃ x, s f = some x ∧ y.secrets = x.secrets ∧ x.spent ⊆ y.spent) ∨
      (∃ x old new now e, m = redeemed now old new e ∧ s f = some x ∧ x.secret = some old ∧ y = x.renew new e) ∨
      ∃ owner k e, m = opened f owner k e ∧ y = ⟨owner, [], some (k, e)⟩ := by
  have closing : ∀ {p : SignIn υ κ τ → Prop} [DecidablePred p], (s f).map (fun x => if p x then x.close else x) = some y →
      ∃ x, s f = some x ∧ y.secrets = x.secrets ∧ x.spent ⊆ y.spent := by
    intro p _ hy
    obtain ⟨x, hx, rfl⟩ := Option.map_eq_some_iff.mp hy
    refine ⟨x, hx, ?_⟩
    split
    · exact ⟨x.secrets_close, fun k hk => SignIn.mem_secrets_of_spent hk⟩
    · exact ⟨rfl, fun _ hk => hk⟩
  cases m with
  | opened family owner k e =>
    by_cases hf : f = family
    · subst hf
      rw [apply, Function.update_self] at h
      exact Or.inr (Or.inr ⟨owner, k, e, rfl, (Option.some.inj h).symm⟩)
    · rw [apply, Function.update_of_ne hf] at h
      exact Or.inl ⟨y, h, rfl, fun _ hk => hk⟩
  | redeemed now old new e =>
    obtain ⟨x, hx, rfl⟩ := Option.map_eq_some_iff.mp h
    by_cases hold : x.secret = some old
    · rw [if_pos hold]
      exact Or.inr (Or.inl ⟨x, old, new, now, e, rfl, hx, hold, rfl⟩)
    · rw [if_neg hold]
      exact Or.inl ⟨x, hx, rfl, fun _ hk => hk⟩
  | replayed old => exact Or.inl (closing h)
  | closed k => exact Or.inl (closing h)
  | expelled owner => exact Or.inl (closing h)
  | idle => exact Or.inl ⟨y, h, rfl, fun _ hk => hk⟩

/-- Where a move puts a new secret. -/
def At (m : Move φ υ κ τ) (s : SignIns φ υ κ τ) (f : φ) : Prop :=
  match m with
  | opened family _ _ _ => f = family
  | redeemed _ old _ _ => ∃ x, s f = some x ∧ x.secret = some old
  | _ => False

omit [DecidableEq φ] [DecidableEq υ] [DecidableEq κ] in
theorem At.unique {g : φ} (h : s.Separate) (hf : m.At s f) (hg : m.At s g) : f = g := by
  cases m with
  | opened family owner k e => exact hf.trans hg.symm
  | redeemed now old new e =>
    obtain ⟨x, hx, hold⟩ := hf
    obtain ⟨y, hy, hold'⟩ := hg
    exact h.apart hx hy (SignIn.mem_secrets_of_secret hold) (SignIn.mem_secrets_of_secret hold')
  | _ => exact absurd hf (by simp [At])

theorem origin [LT τ] (enabled : m.Enabled s) (hy : m.apply s f = some y) (hk : k ∈ y.secrets) :
    (∃ x, s f = some x ∧ k ∈ x.secrets) ∨ s.Unused k ∧ m.At s f := by
  rcases apply_eq_some enabled hy with ⟨x, hx, hsecrets, -⟩ | ⟨x, old, new, now, e, rfl, hx, hold, rfl⟩ |
    ⟨owner, k', e, rfl, rfl⟩
  · exact Or.inl ⟨x, hx, hsecrets ▸ hk⟩
  · rw [SignIn.secrets_renew, List.mem_append, List.mem_singleton] at hk
    rcases hk with hk | rfl
    · exact Or.inl ⟨x, hx, hk⟩
    · exact Or.inr ⟨enabled.2, x, hx, hold⟩
  · obtain rfl : k = k' := by simpa [SignIn.secrets, SignIn.secret] using hk
    refine Or.inr ⟨enabled.2, ?_⟩
    by_contra hf
    have hne : f ≠ _ := hf
    rw [apply, Function.update_of_ne hne] at hy
    exact enabled.2 f _ hy hk

theorem Enabled.separate [LT τ] (enabled : m.Enabled s) (h : s.Separate) : (m.apply s).Separate where
  apart hx hy hkx hky := by
    rcases origin enabled hx hkx with ⟨x, hx', hkx'⟩ | ⟨hunused, hat⟩
    · rcases origin enabled hy hky with ⟨y, hy', hky'⟩ | ⟨hunused, -⟩
      · exact h.apart hx' hy' hkx' hky'
      · exact absurd hkx' (hunused _ _ hx')
    · rcases origin enabled hy hky with ⟨y, hy', hky'⟩ | ⟨-, hat'⟩
      · exact absurd hky' (hunused _ _ hy')
      · exact hat.unique h hat'
  nodup hy := by
    rcases apply_eq_some enabled hy with ⟨x, hx, hsecrets, -⟩ | ⟨x, old, new, now, e, rfl, hx, -, rfl⟩ | ⟨owner, k, e, rfl, rfl⟩
    · rw [hsecrets]
      exact h.nodup hx
    · rw [SignIn.secrets_renew, List.nodup_append]
      refine ⟨h.nodup hx, List.nodup_singleton _, fun a ha b hb hab => ?_⟩
      rw [hab, List.mem_singleton.mp hb] at ha
      exact enabled.2 _ _ hx ha
    · simp [SignIn.secrets, SignIn.secret]

/-! A secret is redeemed at most once. -/

def spends : Move φ υ κ τ → Option κ
  | redeemed _ old _ _ => some old
  | _ => none

theorem Enabled.keeps_spent [LT τ] (enabled : m.Enabled s) (hspent : s.Spent k) : (m.apply s).Spent k := by
  obtain ⟨f, x, hx, hk⟩ := hspent
  have kept : ∀ {p : SignIn υ κ τ → Prop} [DecidablePred p] {g : SignIn υ κ τ → SignIn υ κ τ}, k ∈ (g x).spent →
      SignIns.Spent (fun f => (s f).map fun x => if p x then g x else x) k := by
    intro p _ g hg
    refine ⟨f, if p x then g x else x, by simp only [hx, Option.map_some], ?_⟩
    split
    · exact hg
    · exact hk
  have hclose : k ∈ x.close.spent := SignIn.mem_secrets_of_spent hk
  cases m with
  | opened family owner secret e =>
    have hne : f ≠ family := fun hf => by
      rw [hf, enabled.1] at hx
      exact absurd hx (by simp)
    exact ⟨f, x, by rw [apply, Function.update_of_ne hne, hx], hk⟩
  | redeemed now old new e => exact kept (g := fun x => x.renew new e) (SignIn.mem_secrets_of_spent hk)
  | replayed old => exact kept hclose
  | closed secret => exact kept hclose
  | expelled owner => exact kept hclose
  | idle => exact ⟨f, x, hx, hk⟩

theorem Enabled.spends [LT τ] (enabled : m.Enabled s) (hk : m.spends = some k) :
    (∃ x, s.Live k x) ∧ (m.apply s).Spent k := by
  cases m with
  | redeemed now old new e =>
    obtain rfl := Option.some.inj hk
    obtain ⟨x, -, ⟨⟨f, hf⟩, hold⟩, -⟩ := enabled.1
    refine ⟨⟨x, ⟨f, hf⟩, hold⟩, f, x.renew new e, ?_, SignIn.mem_secrets_of_secret hold⟩
    simp only [apply, hf, Option.map_some, if_pos hold]
  | _ => simp [Move.spends] at hk

theorem not_spends_of_spent [LT τ] {log : List (Move φ υ κ τ)} (run : Run apply Enabled s log t) (h : s.Separate)
    (hspent : s.Spent k) : k ∉ log.filterMap spends := by
  induction run with
  | nil s => simp
  | @cons m s log t enabled _ ih =>
    rw [List.filterMap_cons]
    have hrest := ih (enabled.separate h) (enabled.keeps_spent hspent)
    cases hm : m.spends with
    | none => exact hrest
    | some old =>
      rw [List.mem_cons, not_or]
      refine ⟨fun hk => ?_, hrest⟩
      subst hk
      obtain ⟨⟨x, live⟩, -⟩ := enabled.spends hm
      exact h.not_spent live hspent

theorem spends_nodup [LT τ] {log : List (Move φ υ κ τ)} (run : Run apply Enabled s log t) (h : s.Separate) :
    (log.filterMap spends).Nodup := by
  induction run with
  | nil s => exact List.nodup_nil
  | @cons m s log t enabled rest ih =>
    rw [List.filterMap_cons]
    cases hm : m.spends with
    | none => exact ih (enabled.separate h)
    | some old =>
      obtain ⟨-, hspent⟩ := enabled.spends hm
      exact List.nodup_cons.mpr ⟨not_spends_of_spent rest (enabled.separate h) hspent, ih (enabled.separate h)⟩

end Move

/-! What a secret is worth. -/

inductive Verdict (υ : Type)
  | unknown
  | replayed
  | expired
  | inactive
  | granted (owner : υ)

namespace SignIns

variable {φ υ κ τ : Type} [LT τ] {now : τ} {active : υ → Prop} {s : SignIns φ υ κ τ} {k : κ}

inductive Judged (now : τ) (active : υ → Prop) (s : SignIns φ υ κ τ) (k : κ) : Verdict υ → Prop
  | unknown (unused : s.Unused k) : Judged now active s k .unknown
  | replayed (spent : s.Spent k) : Judged now active s k .replayed
  | expired {x e} (live : s.Live k x) (expires : x.live = some (k, e)) (late : ¬now < e) : Judged now active s k .expired
  | inactive {x e} (live : s.Live k x) (expires : x.live = some (k, e)) (valid : now < e) (gone : ¬active x.owner) :
      Judged now active s k .inactive
  | granted {x e} (live : s.Live k x) (expires : x.live = some (k, e)) (valid : now < e) (there : active x.owner) :
      Judged now active s k (.granted x.owner)

theorem exists_judged (now : τ) (active : υ → Prop) (s : SignIns φ υ κ τ) (k : κ) : ∃ v, Judged now active s k v := by
  by_cases hu : s.Unused k
  · exact ⟨_, .unknown hu⟩
  · simp only [Unused, not_forall, not_not] at hu
    obtain ⟨f, x, hx, hk⟩ := hu
    rw [SignIn.secrets, List.mem_append, Option.mem_toList] at hk
    rcases hk with hk | hk
    · exact ⟨_, .replayed ⟨f, x, hx, hk⟩⟩
    · obtain ⟨⟨k', e⟩, hlive, rfl⟩ := Option.map_eq_some_iff.mp hk
      by_cases hn : now < e
      · by_cases ha : active x.owner
        · exact ⟨_, .granted ⟨⟨f, hx⟩, hk⟩ hlive hn ha⟩
        · exact ⟨_, .inactive ⟨⟨f, hx⟩, hk⟩ hlive hn ha⟩
      · exact ⟨_, .expired ⟨⟨f, hx⟩, hk⟩ hlive hn⟩

end SignIns

end ProjectManagement.Library
