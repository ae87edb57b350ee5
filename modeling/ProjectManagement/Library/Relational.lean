import ProjectManagement.Library.Table
import ProjectManagement.Library.Transaction

/-!
Two programs side by side, from related sessions: they fail alike or return related values, and
leave related sessions. Then tables that agree but for some hidden rows.
-/

namespace ProjectManagement.Library

inductive ResultRel {ε α β : Type} (Q : α → β → Prop) : Except ε α → Except ε β → Prop
  | ok {a b} (h : Q a b) : ResultRel Q (.ok a) (.ok b)
  | error (e) : ResultRel Q (.error e) (.error e)

theorem ResultRel.eq {ε α : Type} {x y : Except ε α} (h : ResultRel Eq x y) : x = y := by
  cases h with
  | ok h => rw [h]
  | error e => rfl

theorem ResultRel.cases {ε α β : Type} {Q : α → β → Prop} {x : Except ε α} {y : Except ε β} (h : ResultRel Q x y) :
    (∃ a b, x = .ok a ∧ y = .ok b ∧ Q a b) ∨ ∃ e, x = .error e ∧ y = .error e := by
  cases h with
  | ok h => exact Or.inl ⟨_, _, rfl, rfl, h⟩
  | error e => exact Or.inr ⟨e, rfl, rfl⟩

theorem ResultRel.mono {ε α β : Type} {P Q : α → β → Prop} {x : Except ε α} {y : Except ε β} (h : ResultRel P x y)
    (hPQ : ∀ a b, P a b → Q a b) : ResultRel Q x y := by
  cases h with
  | ok h => exact .ok (hPQ _ _ h)
  | error e => exact .error e

structure Session.Related {σ τ : Type} (r : σ → σ → Prop) (o : τ → τ → Prop) (s t : Session σ τ) : Prop where
  committed : r s.committed t.committed
  working : r s.working t.working
  outside : o s.outside t.outside

namespace Tx

def Agree {σ τ ε α β : Type} (r : σ → σ → Prop) (o : τ → τ → Prop) (Q : α → β → Prop) (m : Tx σ τ ε α)
    (n : Tx σ τ ε β) : Prop :=
  ∀ s t, Session.Related r o s t → ResultRel Q (m s).1 (n t).1 ∧ Session.Related r o (m s).2 (n t).2

namespace Agree

variable {σ τ ε α β α' β' : Type} {r : σ → σ → Prop} {o : τ → τ → Prop} {Q : α → β → Prop} {Q' : α' → β' → Prop}

theorem mono {P : α → β → Prop} {m : Tx σ τ ε α} {n : Tx σ τ ε β} (h : Agree r o P m n)
    (hPQ : ∀ a b, P a b → Q a b) : Agree r o Q m n :=
  fun s t hst => ⟨(h s t hst).1.mono hPQ, (h s t hst).2⟩

protected theorem ofExcept {x : Except ε α} {y : Except ε β} (h : ResultRel Q x y) :
    Agree r o Q (ofExcept x) (ofExcept y) := fun _ _ hst => ⟨h, hst⟩

protected theorem pure {a : α} {b : β} (h : Q a b) : Agree r o Q (pure a : Tx σ τ ε α) (pure b) :=
  fun _ _ hst => ⟨.ok h, hst⟩

protected theorem raise (e : ε) : Agree r o Q (raise e) (raise e) := .ofExcept (.error e)

protected theorem orRaise {x : Option α} {y : Option β} {e : ε} (h : Option.Rel Q x y) :
    Agree r o Q (orRaise x e : Tx σ τ ε α) (orRaise y e) := by
  cases h with
  | none => exact .raise e
  | some h => exact .ofExcept (.ok h)

theorem refuseIf_of_iff {c c' : Prop} [Decidable c] [Decidable c'] {e : ε} (h : c ↔ c') :
    Agree r o (fun _ _ => ¬c) (refuseIf c e : Tx σ τ ε Unit) (refuseIf c' e) := by
  by_cases hc : c
  · simp only [refuseIf, hc, h.mp hc, if_true]
    exact .raise e
  · have hc' : ¬c' := fun hc' => hc (h.mpr hc')
    simp only [refuseIf, hc, hc', if_false]
    exact .ofExcept (.ok not_false)

protected theorem bind {m : Tx σ τ ε α} {n : Tx σ τ ε β} {f : α → Tx σ τ ε α'} {g : β → Tx σ τ ε β'}
    (hm : Agree r o Q m n) (hf : ∀ a b, Q a b → Agree r o Q' (f a) (g b)) : Agree r o Q' (m >>= f) (n >>= g) := by
  intro s t hst
  obtain ⟨hres, hafter⟩ := hm s t hst
  rw [bind_apply, bind_apply]
  generalize m s = x at hres hafter
  generalize n t = y at hres hafter
  obtain ⟨x, s'⟩ := x
  obtain ⟨y, t'⟩ := y
  cases hres with
  | ok h => exact hf _ _ h s' t' hafter
  | error e => exact ⟨.error e, hafter⟩

theorem bind_of_false {m : Tx σ τ ε α} {n : Tx σ τ ε β} {f : α → Tx σ τ ε α'} {g : β → Tx σ τ ε β'}
    (hm : Agree r o (fun _ _ => False) m n) : Agree r o Q' (m >>= f) (n >>= g) :=
  .bind hm fun _ _ h => h.elim

protected theorem select {f : σ → Except ε α} {g : σ → Except ε β}
    (h : ∀ d d', r d d' → ResultRel Q (f d) (g d')) : Agree r o Q (select f : Tx σ τ ε α) (select g) :=
  fun _ _ hst => ⟨h _ _ hst.working, hst⟩

protected theorem query {f : σ → α} {g : σ → β} (h : ∀ d d', r d d' → Q (f d) (g d')) :
    Agree r o Q (query f : Tx σ τ ε α) (query g) := .select fun d d' hd => .ok (h d d' hd)

theorem execute_of {f g : σ → Except ε σ} {p : Prop} (h : ∀ d d', r d d' → ResultRel r (f d) (g d'))
    (hp : ∀ d d' a, r d d' → f d = .ok a → p) :
    Agree r o (fun _ _ => p) (execute f : Tx σ τ ε Unit) (execute g) := by
  intro s t hst
  unfold execute
  rcases (h _ _ hst.working).cases with ⟨a, b, ha, hb, hab⟩ | ⟨e, ha, hb⟩
  · rw [ha, hb]
    exact ⟨.ok (hp _ _ a hst.working ha), hst.committed, hab, hst.outside⟩
  · rw [ha, hb]
    exact ⟨.error e, hst⟩

protected theorem execute {f g : σ → Except ε σ} (h : ∀ d d', r d d' → ResultRel r (f d) (g d')) :
    Agree r o Eq (execute f : Tx σ τ ε Unit) (execute g) :=
  (execute_of (p := True) h fun _ _ _ _ _ => trivial).mono fun _ _ _ => rfl

theorem execute_bind_query {f g : σ → Except ε σ} {q : σ → α} {q' : σ → β}
    (h : ∀ d d', r d d' → ResultRel r (f d) (g d')) (hq : ∀ d a b, f d = .ok a → r a b → Q (q a) (q' b)) :
    Agree r o Q (execute f >>= fun _ => (query q : Tx σ τ ε α)) (execute g >>= fun _ => query q') := by
  intro s t hst
  rw [bind_apply, bind_apply]
  unfold execute
  rcases (h _ _ hst.working).cases with ⟨a, b, ha, hb, hab⟩ | ⟨e, ha, hb⟩
  · rw [ha, hb]
    exact ⟨.ok (hq _ a b ha hab), hst.committed, hab, hst.outside⟩
  · rw [ha, hb]
    exact ⟨.error e, hst⟩

protected theorem external {f : τ → Except ε α × τ} {g : τ → Except ε β × τ}
    (h : ∀ a b, o a b → ResultRel Q (f a).1 (g b).1 ∧ o (f a).2 (g b).2) :
    Agree r o Q (external f : Tx σ τ ε α) (external g) := by
  intro s t hst
  obtain ⟨hres, hout⟩ := h _ _ hst.outside
  exact ⟨hres, hst.committed, hst.working, hout⟩

protected theorem commit : Agree r o Eq (commit : Tx σ τ ε Unit) commit :=
  fun _ _ hst => ⟨.ok rfl, hst.working, hst.working, hst.outside⟩

protected theorem ite {c : Prop} [Decidable c] {m m' : Tx σ τ ε α} {n n' : Tx σ τ ε β}
    (hm : c → Agree r o Q m n) (hm' : ¬c → Agree r o Q m' n') :
    Agree r o Q (if c then m else m') (if c then n else n') := by
  by_cases h : c
  · simpa only [h, if_true] using hm h
  · simpa only [h, if_false] using hm' h

protected theorem forSome {x : Option α} {f : α → Tx σ τ ε Unit} (h : ∀ a, x = some a → Agree r o Eq (f a) (f a)) :
    Agree r o Eq (forSome x f) (forSome x f) := by
  cases x with
  | none => exact .pure rfl
  | some a => exact h a rfl

theorem run {m : Tx σ τ ε α} {n : Tx σ τ ε β} (h : Agree r o Q m n) {w v : σ × τ} (hd : r w.1 v.1) (ho : o w.2 v.2) :
    ResultRel Q (m.run w).1 (n.run v).1 ∧ r (m.run w).2.1 (n.run v).2.1 ∧ o (m.run w).2.2 (n.run v).2.2 := by
  obtain ⟨hres, hafter⟩ := h ⟨w.1, w.1, w.2⟩ ⟨v.1, v.1, v.2⟩ ⟨hd, hd, ho⟩
  unfold Tx.run
  generalize m ⟨w.1, w.1, w.2⟩ = x at hres hafter
  generalize n ⟨v.1, v.1, v.2⟩ = y at hres hafter
  obtain ⟨x, s⟩ := x
  obtain ⟨y, t⟩ := y
  cases hres with
  | ok h => exact ⟨.ok h, hafter.working, hafter.outside⟩
  | error e => exact ⟨.error e, hafter.committed, hafter.outside⟩

end Agree

/-- A program that acts the same on both sides. -/
class Blind {σ τ ε α : Type} (r : σ → σ → Prop) (o : τ → τ → Prop) (m : Tx σ τ ε α) : Prop where
  agree : Agree r o Eq m m

section Blind

variable {σ τ ε α β : Type} {r : σ → σ → Prop} {o : τ → τ → Prop}

instance {a : α} : Blind r o (pure a : Tx σ τ ε α) := ⟨.pure rfl⟩
instance {x : Except ε α} : Blind r o (ofExcept x : Tx σ τ ε α) := ⟨.ofExcept (by cases x <;> constructor; rfl)⟩
instance {e : ε} : Blind r o (raise e : Tx σ τ ε α) := ⟨.raise e⟩
instance {x : Option α} {e : ε} : Blind r o (orRaise x e : Tx σ τ ε α) := ⟨.orRaise (by cases x <;> constructor; rfl)⟩
instance {c : Prop} [Decidable c] {e : ε} : Blind r o (refuseIf c e : Tx σ τ ε Unit) :=
  ⟨(Agree.refuseIf_of_iff Iff.rfl).mono fun _ _ _ => rfl⟩
instance : Blind r o (commit : Tx σ τ ε Unit) := ⟨.commit⟩
instance {m : Tx σ τ ε α} {f : α → Tx σ τ ε β} [hm : Blind r o m] [hf : ∀ a, Blind r o (f a)] :
    Blind r o (m >>= f) := ⟨.bind hm.agree fun a _ h => h ▸ (hf a).agree⟩
instance {c : Prop} [Decidable c] {m n : Tx σ τ ε α} [hm : Blind r o m] [hn : Blind r o n] :
    Blind r o (if c then m else n) := ⟨.ite (fun _ => hm.agree) (fun _ => hn.agree)⟩
instance {x : Option α} {f : α → Tx σ τ ε Unit} [hf : ∀ a, Blind r o (f a)] : Blind r o (forSome x f) :=
  ⟨.forSome fun a _ => (hf a).agree⟩

theorem Blind.query {f : σ → α} (h : ∀ d d', r d d' → f d = f d') : Blind r o (query f : Tx σ τ ε α) := ⟨.query h⟩

theorem Blind.select {f : σ → Except ε α} (h : ∀ d d', r d d' → f d = f d') : Blind r o (select f : Tx σ τ ε α) := by
  refine ⟨.select fun d d' hd => ?_⟩
  rw [h d d' hd]
  cases f d' with
  | error e => exact .error e
  | ok a => exact .ok rfl

/-! On one database: only what lies outside it may differ. -/

instance {f : σ → α} : Blind Eq o (query f : Tx σ τ ε α) := Blind.query fun _ _ h => congrArg f h
instance {f : σ → Except ε α} : Blind Eq o (select f : Tx σ τ ε α) := Blind.select fun _ _ h => congrArg f h

instance {f : σ → Except ε σ} : Blind Eq o (execute f : Tx σ τ ε Unit) := by
  refine ⟨.execute ?_⟩
  rintro d _ rfl
  cases f d with
  | error e => exact .error e
  | ok d' => exact .ok rfl

/-- After a check that is blind to what lies outside, only what follows it matters. -/
theorem run_bind_blind {m : Tx σ τ ε α} {f : α → Tx σ τ ε β} [hm : Blind Eq (fun _ _ => True) m] [ReadOnly m] {w v : σ × τ}
    (db : v.1 = w.1) (hf : ∀ a, m.Succeeds ⟨w.1, w.1, w.2⟩ a ⟨w.1, w.1, w.2⟩ → ((f a).run v).1 = ((f a).run w).1) :
    ((m >>= f).run v).1 = ((m >>= f).run w).1 := by
  obtain ⟨hres, -⟩ := hm.agree ⟨w.1, w.1, w.2⟩ ⟨v.1, v.1, v.2⟩ ⟨db.symm, db.symm, trivial⟩
  have hw := ReadOnly.keeps (m := m) ⟨w.1, w.1, w.2⟩
  have hv := ReadOnly.keeps (m := m) ⟨v.1, v.1, v.2⟩
  rcases hmw : m ⟨w.1, w.1, w.2⟩ with ⟨e | a, s⟩
  · rcases hmv : m ⟨v.1, v.1, v.2⟩ with ⟨e' | b, t⟩
    · rw [hmw, hmv] at hres
      rw [run_of_raises (Raises.bind hmw), run_of_raises (Raises.bind hmv), Except.error.inj hres.eq]
    · rw [hmw, hmv] at hres
      exact absurd hres.eq (by simp)
  · rcases hmv : m ⟨v.1, v.1, v.2⟩ with ⟨e' | b, t⟩
    · rw [hmw, hmv] at hres
      exact absurd hres.eq (by simp)
    · rw [hmw, hmv] at hres
      obtain rfl : a = b := Except.ok.inj hres.eq
      rw [hmw] at hw
      rw [hmv] at hv
      obtain rfl : s = ⟨w.1, w.1, w.2⟩ := hw
      obtain rfl : t = ⟨v.1, v.1, v.2⟩ := hv
      have hrun : ∀ u : σ × τ, m ⟨u.1, u.1, u.2⟩ = (.ok a, ⟨u.1, u.1, u.2⟩) → (m >>= f).run u = (f a).run u := by
        intro u hu
        simp only [run, bind_apply, hu]
      rw [hrun w hmw, hrun v hmv]
      exact hf a hmw

end Blind

end Tx

/-! Optional results. -/

section Options

variable {α β α' β' : Type}

theorem optionRel_of_some {R Q : α → β → Prop} {x : Option α} {y : Option β} (h : Option.Rel R x y)
    (hQ : ∀ a b, x = some a → R a b → Q a b) : Option.Rel Q x y := by
  cases h with
  | none => exact .none
  | some hab => exact .some (hQ _ _ rfl hab)

theorem eq_of_optionRel {R : α → α → Prop} {x y : Option α} (h : Option.Rel R x y)
    (hR : ∀ a b, x = some a → R a b → a = b) : x = y := by
  cases h with
  | none => rfl
  | some hab => exact congrArg some (hR _ _ rfl hab)

theorem optionRel_map {R : α → β → Prop} {Q : α' → β' → Prop} {f : α → α'} {g : β → β'} {x : Option α} {y : Option β}
    (h : Option.Rel R x y) (hQ : ∀ a b, x = some a → R a b → Q (f a) (g b)) : Option.Rel Q (x.map f) (y.map g) := by
  cases h with
  | none => exact .none
  | some hab => exact .some (hQ _ _ rfl hab)

end Options

/-! Lists equal but for pairs of hidden rows. -/

def Alike {ρ : Type} (hidden : ρ → ρ → Prop) : List ρ → List ρ → Prop := List.Forall₂ fun a b => a = b ∨ hidden a b

namespace Alike

variable {ρ : Type} {hidden : ρ → ρ → Prop} {l l' : List ρ}

theorem refl (l : List ρ) : Alike hidden l l := List.forall₂_same.mpr fun _ _ => Or.inl rfl

theorem append (h : Alike hidden l l') (r : ρ) : Alike hidden (l ++ [r]) (l' ++ [r]) :=
  List.rel_append h (.cons (Or.inl rfl) .nil)

theorem filter {p : ρ → Bool} (h : Alike hidden l l') (hp : ∀ a b, hidden a b → p a = false ∧ p b = false) :
    l.filter p = l'.filter p := by
  induction h with
  | nil => rfl
  | cons hab _ ih =>
    rcases hab with rfl | hab
    · simp only [List.filter_cons, ih]
    · simp only [List.filter_cons, hp _ _ hab, Bool.false_eq_true, if_false, ih]

theorem filter_alike {p : ρ → Bool} (h : Alike hidden l l') (hp : ∀ a b, hidden a b → p a = p b) :
    Alike hidden (l.filter p) (l'.filter p) := by
  induction h with
  | nil => exact .nil
  | @cons a b _ _ hab _ ih =>
    have hpab : p a = p b := hab.elim (fun he => he ▸ rfl) (hp a b)
    cases hb : p b with
    | true =>
      rw [List.filter_cons_of_pos (hpab.trans hb), List.filter_cons_of_pos hb]
      exact .cons hab ih
    | false =>
      rw [List.filter_cons_of_neg (by simp [hpab, hb]), List.filter_cons_of_neg (by simp [hb])]
      exact ih

theorem flatMap {α : Type} {f : ρ → List α} (h : Alike hidden l l') (hf : ∀ a b, hidden a b → f a = [] ∧ f b = []) :
    l.flatMap f = l'.flatMap f := by
  induction h with
  | nil => rfl
  | cons hab _ ih =>
    rw [List.flatMap_cons, List.flatMap_cons, ih]
    rcases hab with rfl | hab
    · rfl
    · rw [(hf _ _ hab).1, (hf _ _ hab).2]

theorem any {p : ρ → Bool} (h : Alike hidden l l') (hp : ∀ a b, hidden a b → p a = p b) : l.any p = l'.any p := by
  induction h with
  | nil => rfl
  | cons hab _ ih =>
    rw [List.any_cons, List.any_cons, ih]
    rcases hab with rfl | hab
    · rfl
    · rw [hp _ _ hab]

theorem find? {p : ρ → Bool} (h : Alike hidden l l') (hp : ∀ a b, hidden a b → p a = p b) :
    Option.Rel (fun a b => a = b ∨ hidden a b) (l.find? p) (l'.find? p) := by
  induction h with
  | nil => exact .none
  | @cons a b _ _ hab _ ih =>
    have hpab : p a = p b := hab.elim (fun he => he ▸ rfl) (hp a b)
    cases hb : p b with
    | true =>
      rw [List.find?_cons_of_pos (hpab.trans hb), List.find?_cons_of_pos hb]
      exact .some hab
    | false =>
      rw [List.find?_cons_of_neg (by simp [hpab, hb]), List.find?_cons_of_neg (by simp [hb])]
      exact ih

theorem map {κ : Type} {f : ρ → κ} (h : Alike hidden l l') (hf : ∀ a b, hidden a b → f a = f b) : l.map f = l'.map f := by
  induction h with
  | nil => rfl
  | cons hab _ ih =>
    rw [List.map_cons, List.map_cons, ih]
    rcases hab with rfl | hab
    · rfl
    · rw [hf _ _ hab]

theorem put {κ : Type} [Keyed ρ κ] [DecidableEq κ] {t u : Table ρ} (h : Alike hidden t.rows u.rows) (r : ρ)
    (hkey : ∀ a b, hidden a b → Keyed.key a = Keyed.key b) : Alike hidden (t.put r).rows (u.put r).rows := by
  simp only [Table.put]
  refine List.forall₂_map_left_iff.mpr (List.forall₂_map_right_iff.mpr (h.imp fun a b hab => ?_))
  rcases hab with rfl | hab
  · exact Or.inl rfl
  · rw [hkey a b hab]
    split
    · exact Or.inl rfl
    · exact Or.inr hab

theorem insert? {κ : Type} [Keyed ρ κ] [DecidableEq κ] {t u : Table ρ} (h : Alike hidden t.rows u.rows) (r : ρ)
    (hkey : ∀ a b, hidden a b → Keyed.key a = Keyed.key b) :
    Option.Rel (fun t' u' => t'.rows = t.rows ++ [r] ∧ u'.rows = u.rows ++ [r] ∧ ∀ x ∈ t.rows, Keyed.key x ≠ Keyed.key r)
      (t.insert? r) (u.insert? r) := by
  have hkeys : t.rows.map Keyed.key = u.rows.map Keyed.key := h.map hkey
  by_cases hr : Keyed.key r ∈ t.rows.map Keyed.key
  · have hr' : Keyed.key r ∈ u.rows.map Keyed.key := hkeys ▸ hr
    simp only [Table.insert?, hr, hr', dif_pos]
    exact .none
  · have hr' : Keyed.key r ∉ u.rows.map Keyed.key := hkeys ▸ hr
    simp only [Table.insert?, hr, hr', dif_neg, not_false_eq_true]
    exact .some ⟨rfl, rfl, fun x hx he => hr (List.mem_map.mpr ⟨x, hx, he⟩)⟩

end Alike

end ProjectManagement.Library
