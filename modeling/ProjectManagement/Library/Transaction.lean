import Mathlib.Logic.Basic

/-!
Programs that run inside one database transaction and may also write to a store
outside it. An error gives up everything since the last commit, but not what was
written outside.
-/

namespace ProjectManagement.Library

structure Session (σ τ : Type) where
  committed : σ
  working : σ
  outside : τ

def Tx (σ τ ε α : Type) : Type := Session σ τ → Except ε α × Session σ τ

namespace Tx

variable {σ τ ε α β : Type}

instance : Monad (Tx σ τ ε) where
  pure a := fun s => (.ok a, s)
  bind m f := fun s =>
    match m s with
    | (.ok a, t) => f a t
    | (.error e, t) => (.error e, t)

theorem bind_apply (m : Tx σ τ ε α) (f : α → Tx σ τ ε β) (s : Session σ τ) :
    (m >>= f) s = match m s with
      | (.ok a, t) => f a t
      | (.error e, t) => (.error e, t) := rfl

instance : LawfulMonad (Tx σ τ ε) :=
  LawfulMonad.mk' _
    (fun m => by
      funext s
      change (m >>= fun a => pure a) s = m s
      rw [bind_apply]
      rcases m s with ⟨_ | a, t⟩ <;> rfl)
    (fun _ _ => rfl)
    (fun m f g => by
      funext s
      simp only [bind_apply]
      rcases m s with ⟨_ | a, t⟩ <;> rfl)

def ofExcept (x : Except ε α) : Tx σ τ ε α := fun s => (x, s)

def raise (e : ε) : Tx σ τ ε α := ofExcept (.error e)

def orRaise (o : Option α) (e : ε) : Tx σ τ ε α := ofExcept (o.elim (.error e) .ok)

def refuseIf (c : Prop) [Decidable c] (e : ε) : Tx σ τ ε Unit := ofExcept (if c then .error e else .ok ())

/-- A `SELECT`: it sees the transaction's own writes. -/
def select (f : σ → Except ε α) : Tx σ τ ε α := fun s => (f s.working, s)

def query (f : σ → α) : Tx σ τ ε α := select (fun d => .ok (f d))

/-- A statement that writes, rejected as a whole by a violated constraint. -/
def execute (f : σ → Except ε σ) : Tx σ τ ε Unit := fun s =>
  match f s.working with
  | .ok d => (.ok (), { s with working := d })
  | .error e => (.error e, s)

/-- An action on the outside store, which no rollback undoes. -/
def external (f : τ → Except ε α × τ) : Tx σ τ ε α := fun s =>
  ((f s.outside).1, { s with outside := (f s.outside).2 })

def commit : Tx σ τ ε Unit := fun s => (.ok (), { s with committed := s.working })

/-- `if x is not None: await f(x)`. -/
def forSome (o : Option α) (f : α → Tx σ τ ε Unit) : Tx σ τ ε Unit :=
  match o with
  | none => pure ()
  | some a => f a

/-- The request scope: commit on success, roll back on error. -/
def run (m : Tx σ τ ε α) (w : σ × τ) : Except ε α × σ × τ :=
  match m ⟨w.1, w.1, w.2⟩ with
  | (.ok a, t) => (.ok a, t.working, t.outside)
  | (.error e, t) => (.error e, t.committed, t.outside)

/-- What a program that only reads finds in a state. -/
def answer (m : Tx σ τ ε α) (w : σ × τ) : Except ε α := (m ⟨w.1, w.1, w.2⟩).1

/-! Successful runs, one rewriting rule for each statement. -/

def Succeeds (m : Tx σ τ ε α) (s : Session σ τ) (a : α) (t : Session σ τ) : Prop := m s = (.ok a, t)

section Succeeds

variable {s t : Session σ τ}

@[simp] theorem succeeds_pure {a b : α} : (pure a : Tx σ τ ε α).Succeeds s b t ↔ b = a ∧ t = s := by
  simp only [Succeeds, pure, Prod.mk.injEq, Except.ok.injEq]
  exact ⟨fun h => ⟨h.1.symm, h.2.symm⟩, fun h => ⟨h.1.symm, h.2.symm⟩⟩

@[simp] theorem succeeds_bind {m : Tx σ τ ε α} {f : α → Tx σ τ ε β} {b : β} :
    (m >>= f).Succeeds s b t ↔ ∃ a u, m.Succeeds s a u ∧ (f a).Succeeds u b t := by
  rw [Succeeds, bind_apply]
  unfold Succeeds
  rcases hm : m s with ⟨r, u⟩
  cases r with
  | error e => simp
  | ok a =>
    simp only [Prod.mk.injEq, Except.ok.injEq]
    constructor
    · exact fun h => ⟨a, u, ⟨rfl, rfl⟩, h⟩
    · rintro ⟨a', u', ⟨rfl, rfl⟩, h⟩
      exact h

theorem Succeeds.bind {m : Tx σ τ ε α} {f : α → Tx σ τ ε β} {a : α} {b : β} {u : Session σ τ}
    (hm : m.Succeeds s a u) (hf : (f a).Succeeds u b t) : (m >>= f).Succeeds s b t :=
  succeeds_bind.mpr ⟨a, u, hm, hf⟩

theorem Succeeds.seq {m : Tx σ τ ε Unit} {f : Tx σ τ ε β} {b : β} {u : Session σ τ}
    (hm : m.Succeeds s () u) (hf : f.Succeeds u b t) : (m >>= fun _ => f).Succeeds s b t :=
  hm.bind hf

@[simp] theorem succeeds_ofExcept {x : Except ε α} {a : α} :
    (ofExcept x : Tx σ τ ε α).Succeeds s a t ↔ x = .ok a ∧ t = s := by
  simp [Succeeds, ofExcept, eq_comm]

@[simp] theorem succeeds_raise {e : ε} {a : α} : (raise e : Tx σ τ ε α).Succeeds s a t ↔ False := by
  simp [raise]

@[simp] theorem succeeds_orRaise {o : Option α} {e : ε} {a : α} :
    (orRaise o e : Tx σ τ ε α).Succeeds s a t ↔ o = some a ∧ t = s := by
  cases o <;> simp [orRaise]

@[simp] theorem succeeds_refuseIf {c : Prop} [Decidable c] {e : ε} {u : Unit} :
    (refuseIf c e : Tx σ τ ε Unit).Succeeds s u t ↔ ¬c ∧ t = s := by
  by_cases h : c <;> simp [refuseIf, h]

@[simp] theorem succeeds_select {f : σ → Except ε α} {a : α} :
    (select f : Tx σ τ ε α).Succeeds s a t ↔ f s.working = .ok a ∧ t = s := by
  simp [Succeeds, select, eq_comm]

@[simp] theorem succeeds_query {f : σ → α} {a : α} :
    (query f : Tx σ τ ε α).Succeeds s a t ↔ a = f s.working ∧ t = s := by
  simp [query, eq_comm]

@[simp] theorem succeeds_execute {f : σ → Except ε σ} {u : Unit} :
    (execute f : Tx σ τ ε Unit).Succeeds s u t ↔ ∃ d, f s.working = .ok d ∧ t = { s with working := d } := by
  cases h : f s.working <;> simp [Succeeds, execute, h, eq_comm]

@[simp] theorem succeeds_external {f : τ → Except ε α × τ} {a : α} :
    (external f : Tx σ τ ε α).Succeeds s a t ↔
      ∃ o, f s.outside = (.ok a, o) ∧ t = { s with outside := o } := by
  simp only [Succeeds, external, Prod.mk.injEq]
  constructor
  · rintro ⟨h, rfl⟩
    exact ⟨_, Prod.ext h rfl, rfl⟩
  · rintro ⟨o, h, rfl⟩
    simp [h]

@[simp] theorem succeeds_commit {u : Unit} :
    (commit : Tx σ τ ε Unit).Succeeds s u t ↔ t = { s with committed := s.working } := by
  simp [Succeeds, commit, eq_comm]

@[simp] theorem succeeds_forSome {o : Option α} {f : α → Tx σ τ ε Unit} {u : Unit} :
    (forSome o f).Succeeds s u t ↔ (o = none ∧ t = s) ∨ ∃ a, o = some a ∧ (f a).Succeeds s u t := by
  cases o <;> simp [forSome]

theorem succeeds_ite {c : Prop} [Decidable c] {m n : Tx σ τ ε α} {a : α} :
    (if c then m else n).Succeeds s a t ↔ (c ∧ m.Succeeds s a t) ∨ (¬c ∧ n.Succeeds s a t) := by
  by_cases h : c <;> simp [h]

theorem run_ok {m : Tx σ τ ε α} {w v : σ × τ} {a : α} :
    m.run w = (.ok a, v) ↔ ∃ t, m.Succeeds ⟨w.1, w.1, w.2⟩ a t ∧ v = (t.working, t.outside) := by
  unfold run Succeeds
  rcases m ⟨w.1, w.1, w.2⟩ with ⟨r, t⟩
  cases r with
  | error e => simp
  | ok b =>
    simp only [Prod.mk.injEq, Except.ok.injEq]
    constructor
    · rintro ⟨rfl, rfl⟩
      exact ⟨t, ⟨rfl, rfl⟩, rfl⟩
    · rintro ⟨u, ⟨rfl, rfl⟩, rfl⟩
      exact ⟨rfl, rfl⟩

theorem run_of_succeeds {m : Tx σ τ ε α} {d : σ} {o : τ} {a : α} (h : m.Succeeds ⟨d, d, o⟩ a t) :
    m.run (d, o) = (.ok a, t.working, t.outside) := run_ok.mpr ⟨t, h, rfl⟩

theorem answer_eq_ok {m : Tx σ τ ε α} {w : σ × τ} {a : α} :
    m.answer w = .ok a ↔ ∃ t, m.Succeeds ⟨w.1, w.1, w.2⟩ a t := by
  unfold answer Succeeds
  rcases m ⟨w.1, w.1, w.2⟩ with ⟨r, t⟩
  constructor
  · intro h
    exact ⟨t, Prod.ext h rfl⟩
  · rintro ⟨u, hu⟩
    exact congrArg Prod.fst hu

end Succeeds

/-! Runs that end in an error. -/

def Raises (m : Tx σ τ ε α) (s : Session σ τ) (e : ε) (t : Session σ τ) : Prop := m s = (.error e, t)

section Raises

variable {m : Tx σ τ ε α} {f : α → Tx σ τ ε β} {s t u : Session σ τ} {e : ε}

theorem raises_refuseIf {c : Prop} [Decidable c] (h : c) : (refuseIf c e : Tx σ τ ε Unit).Raises s e s := by
  simp [Raises, refuseIf, ofExcept, h]

theorem raises_ofExcept : (ofExcept (.error e) : Tx σ τ ε α).Raises s e s := rfl

theorem raises_execute {f : σ → Except ε σ} (h : f s.working = .error e) : (execute f : Tx σ τ ε Unit).Raises s e s := by
  simp [Raises, execute, h]

theorem raises_external {f : τ → Except ε α × τ} {o : τ} (h : f s.outside = (.error e, o)) :
    (external f : Tx σ τ ε α).Raises s e { s with outside := o } := by
  simp [Raises, external, h]

theorem Raises.bind (h : m.Raises s e t) : (m >>= f).Raises s e t := by
  rw [Raises, bind_apply, show m s = (.error e, t) from h]

theorem Succeeds.bind_raises {a : α} (hm : m.Succeeds s a u) (hf : (f a).Raises u e t) : (m >>= f).Raises s e t := by
  rw [Raises, bind_apply, show m s = (.ok a, u) from hm]
  exact hf

theorem run_of_raises {d : σ} {o : τ} (h : m.Raises ⟨d, d, o⟩ e t) : m.run (d, o) = (.error e, t.committed, t.outside) := by
  rw [run, show m ⟨d, d, o⟩ = (.error e, t) from h]

end Raises

/-! Programs that read only, that stay inside the open transaction, that commit nothing by themselves. -/

class ReadOnly (m : Tx σ τ ε α) : Prop where
  keeps : ∀ s, (m s).2 = s

class Contained (m : Tx σ τ ε α) : Prop where
  keeps : ∀ s, (m s).2.committed = s.committed ∧ (m s).2.outside = s.outside

class Uncommitted (m : Tx σ τ ε α) : Prop where
  keeps : ∀ s, (m s).2.committed = s.committed

instance {a : α} : ReadOnly (pure a : Tx σ τ ε α) := ⟨fun _ => rfl⟩
instance {x : Except ε α} : ReadOnly (ofExcept x : Tx σ τ ε α) := ⟨fun _ => rfl⟩
instance {e : ε} : ReadOnly (raise e : Tx σ τ ε α) := ⟨fun _ => rfl⟩
instance {o : Option α} {e : ε} : ReadOnly (orRaise o e : Tx σ τ ε α) := ⟨fun _ => rfl⟩
instance {c : Prop} [Decidable c] {e : ε} : ReadOnly (refuseIf c e : Tx σ τ ε Unit) := ⟨fun _ => rfl⟩
instance {f : σ → Except ε α} : ReadOnly (select f : Tx σ τ ε α) := ⟨fun _ => rfl⟩
instance {f : σ → α} : ReadOnly (query f : Tx σ τ ε α) := ⟨fun _ => rfl⟩

instance (priority := 50) {m : Tx σ τ ε α} [h : ReadOnly m] : Contained m :=
  ⟨fun s => by rw [h.keeps]; exact ⟨rfl, rfl⟩⟩
instance (priority := 50) {m : Tx σ τ ε α} [h : Contained m] : Uncommitted m := ⟨fun s => (h.keeps s).1⟩

instance {f : σ → Except ε σ} : Contained (execute f : Tx σ τ ε Unit) :=
  ⟨fun s => by unfold execute; cases f s.working <;> exact ⟨rfl, rfl⟩⟩
instance {f : τ → Except ε α × τ} : Uncommitted (external f : Tx σ τ ε α) := ⟨fun _ => rfl⟩

theorem bind_snd {m : Tx σ τ ε α} {f : α → Tx σ τ ε β} {γ : Type} (p : Session σ τ → γ)
    (hm : ∀ s, p (m s).2 = p s) (hf : ∀ a s, p (f a s).2 = p s) (s : Session σ τ) :
    p ((m >>= f) s).2 = p s := by
  rw [bind_apply]
  have h := hm s
  generalize m s = x at h ⊢
  rcases x with ⟨_ | a, t⟩
  · exact h
  · exact (hf a t).trans h

instance {m : Tx σ τ ε α} {f : α → Tx σ τ ε β} [hm : ReadOnly m] [hf : ∀ a, ReadOnly (f a)] :
    ReadOnly (m >>= f) := ⟨bind_snd id hm.keeps (fun a => (hf a).keeps)⟩
instance {m : Tx σ τ ε α} {f : α → Tx σ τ ε β} [hm : Contained m] [hf : ∀ a, Contained (f a)] :
    Contained (m >>= f) :=
  ⟨fun s => ⟨bind_snd Session.committed (fun s => (hm.keeps s).1) (fun a s => ((hf a).keeps s).1) s,
    bind_snd Session.outside (fun s => (hm.keeps s).2) (fun a s => ((hf a).keeps s).2) s⟩⟩
instance {m : Tx σ τ ε α} {f : α → Tx σ τ ε β} [hm : Uncommitted m] [hf : ∀ a, Uncommitted (f a)] :
    Uncommitted (m >>= f) := ⟨bind_snd Session.committed hm.keeps (fun a => (hf a).keeps)⟩

instance {c : Prop} [Decidable c] {m n : Tx σ τ ε α} [ReadOnly m] [ReadOnly n] :
    ReadOnly (if c then m else n) := by split <;> infer_instance
instance {c : Prop} [Decidable c] {m n : Tx σ τ ε α} [Contained m] [Contained n] :
    Contained (if c then m else n) := by split <;> infer_instance

instance {o : Option α} {f : α → Tx σ τ ε Unit} [h : ∀ a, Contained (f a)] : Contained (forSome o f) := by
  cases o with
  | none => exact inferInstanceAs (Contained (pure () : Tx σ τ ε Unit))
  | some a => exact h a

theorem ReadOnly.succeeds {m : Tx σ τ ε α} [h : ReadOnly m] {s t : Session σ τ} {a : α}
    (hm : m.Succeeds s a t) : t = s := by
  have := h.keeps s
  rw [hm] at this
  exact this

theorem Contained.succeeds {m : Tx σ τ ε α} [h : Contained m] {s t : Session σ τ} {a : α}
    (hm : m.Succeeds s a t) : t.committed = s.committed ∧ t.outside = s.outside := by
  have := h.keeps s
  rw [hm] at this
  exact this

theorem run_error_fst {m : Tx σ τ ε α} [h : Uncommitted m] {w v : σ × τ} {e : ε}
    (hr : m.run w = (.error e, v)) : v.1 = w.1 := by
  have hk := h.keeps ⟨w.1, w.1, w.2⟩
  unfold run at hr
  generalize m ⟨w.1, w.1, w.2⟩ = x at hk hr
  rcases x with ⟨_ | a, t⟩
  · rw [← (Prod.mk.inj hr).2]
    exact hk
  · simp at hr

theorem run_snd {m : Tx σ τ ε α} [h : Contained m] (w : σ × τ) : (m.run w).2.2 = w.2 := by
  have hk := h.keeps ⟨w.1, w.1, w.2⟩
  unfold run
  generalize m ⟨w.1, w.1, w.2⟩ = x at hk ⊢
  rcases x with ⟨_ | a, t⟩ <;> exact hk.2

theorem run_error {m : Tx σ τ ε α} [Contained m] {w v : σ × τ} {e : ε}
    (hr : m.run w = (.error e, v)) : v = w := by
  apply Prod.ext (run_error_fst hr)
  have := run_snd (m := m) w
  rw [hr] at this
  exact this

theorem bind_outside {m : Tx σ τ ε α} {f : α → Tx σ τ ε β} [h : ∀ a, Contained (f a)] (s : Session σ τ) :
    ((m >>= f) s).2.outside = (m s).2.outside := by
  rw [bind_apply]
  rcases m s with ⟨_ | a, t⟩
  · rfl
  · exact ((h a).keeps t).2

theorem run_outside {m : Tx σ τ ε α} (w : σ × τ) : (m.run w).2.2 = (m ⟨w.1, w.1, w.2⟩).2.outside := by
  unfold run
  rcases m ⟨w.1, w.1, w.2⟩ with ⟨_ | a, t⟩ <;> rfl

/-- A check in front of a program: it refuses, or the program runs as if alone. -/
theorem run_bind_readOnly {m : Tx σ τ ε α} {f : α → Tx σ τ ε β} [h : ReadOnly m] (w : σ × τ) :
    (∃ e, (m >>= f).run w = (.error e, w)) ∨
      ∃ a, m.Succeeds ⟨w.1, w.1, w.2⟩ a ⟨w.1, w.1, w.2⟩ ∧ (m >>= f).run w = (f a).run w := by
  have hk := h.keeps ⟨w.1, w.1, w.2⟩
  simp only [run, Succeeds, bind_apply]
  rcases hm : m ⟨w.1, w.1, w.2⟩ with ⟨e | a, t⟩
  · obtain rfl : t = ⟨w.1, w.1, w.2⟩ := by simpa [hm] using hk
    exact Or.inl ⟨e, rfl⟩
  · obtain rfl : t = ⟨w.1, w.1, w.2⟩ := by simpa [hm] using hk
    exact Or.inr ⟨a, rfl, rfl⟩

theorem run_bind_pure {m : Tx σ τ ε α} {f : α → β} {w : σ × τ} :
    ((m >>= fun a => pure (f a)).run w).1 = (m.answer w).map f := by
  simp only [run, answer, bind_apply]
  rcases m ⟨w.1, w.1, w.2⟩ with ⟨_ | a, t⟩ <;> rfl

/-- Two programs after the same checks answer alike exactly when they do so where the checks pass. -/
theorem run_bind_eq_iff {m : Tx σ τ ε α} {f g : α → Tx σ τ ε β} [h : ReadOnly m] {w : σ × τ} :
    ((m >>= f).run w).1 = ((m >>= g).run w).1 ↔
      ∀ a, m.Succeeds ⟨w.1, w.1, w.2⟩ a ⟨w.1, w.1, w.2⟩ → ((f a).run w).1 = ((g a).run w).1 := by
  have hk := h.keeps ⟨w.1, w.1, w.2⟩
  simp only [run, Succeeds, bind_apply]
  rcases hm : m ⟨w.1, w.1, w.2⟩ with ⟨e | a, t⟩
  · simp
  · obtain rfl : t = ⟨w.1, w.1, w.2⟩ := by simpa [hm] using hk
    simp

theorem bind_congr_of_succeeds {m : Tx σ τ ε α} {f g : α → Tx σ τ ε β} (h : ∀ s a t, m.Succeeds s a t → f a t = g a t) :
    (m >>= f) = (m >>= g) := by
  funext s
  simp only [bind_apply]
  rcases hm : m s with ⟨e | a, t⟩
  · rfl
  · exact h s a t hm

theorem bind_read_again {m : Tx σ τ ε α} [hm : ReadOnly m] {g : α → Tx σ τ ε β} [hg : ∀ a, ReadOnly (g a)] {γ : Type}
    {k : α → Tx σ τ ε γ} : (do let a ← m; let _ ← g a; let b ← m; k b) = (do let a ← m; let _ ← g a; k a) := by
  funext s
  have hs := hm.keeps s
  simp only [bind_apply]
  rcases ha : m s with ⟨e | a, t⟩
  · rfl
  · obtain rfl : t = s := by rw [← hs, ha]
    have ht := (hg a).keeps t
    simp only
    rcases hb : g a t with ⟨e | b, v⟩
    · rfl
    · obtain rfl : v = t := by rw [← ht, hb]
      simp only [ha]

theorem run_readOnly {m : Tx σ τ ε α} [h : ReadOnly m] (w : σ × τ) : (m.run w).2 = w := by
  have hk := h.keeps ⟨w.1, w.1, w.2⟩
  unfold run
  generalize m ⟨w.1, w.1, w.2⟩ = x at hk ⊢
  rcases x with ⟨_ | a, t⟩
  · exact Prod.ext (congrArg Session.committed hk) (congrArg Session.outside hk)
  · exact Prod.ext (congrArg Session.working hk) (congrArg Session.outside hk)

end Tx

end ProjectManagement.Library
