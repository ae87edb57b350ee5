import Mathlib.Data.Set.Defs
import ProjectManagement.Library.Transaction

/-!
The errors a program may end with, from one state or from every state: a rule for each statement. In a
sequence the second program is looked at only where the first one leads.
-/

namespace ProjectManagement.Library.Tx

variable {σ τ ε α β : Type} {E F : Set ε} {m : Tx σ τ ε α} {f : α → Tx σ τ ε β} {e : ε} {s t : Session σ τ}

def RaisesAt (E : Set ε) (m : Tx σ τ ε α) (s : Session σ τ) : Prop := ∀ e t, m.Raises s e t → e ∈ E

def RaisesIn (E : Set ε) (m : Tx σ τ ε α) : Prop := ∀ s, m.RaisesAt E s

theorem RaisesAt.run {w v : σ × τ} (h : m.RaisesAt E ⟨w.1, w.1, w.2⟩) (hrun : m.run w = (.error e, v)) : e ∈ E := by
  unfold Tx.run at hrun
  rcases hm : m ⟨w.1, w.1, w.2⟩ with ⟨e' | a, t⟩
  · rw [hm] at hrun
    obtain rfl := Except.error.inj (congrArg Prod.fst hrun)
    exact h _ _ hm
  · rw [hm] at hrun
    exact absurd (congrArg Prod.fst hrun) (by simp)

theorem RaisesAt.mono (h : m.RaisesAt E s) (hEF : ∀ e ∈ E, e ∈ F) : m.RaisesAt F s := fun e t hm => hEF e (h e t hm)

theorem RaisesAt.bind (hm : m.RaisesAt E s) (hf : ∀ a t, m.Succeeds s a t → (f a).RaisesAt E t) :
    (m >>= f).RaisesAt E s := by
  intro e t h
  rw [Raises, bind_apply] at h
  rcases hs : m s with ⟨e' | a, u⟩
  · rw [hs] at h
    obtain rfl := Except.error.inj (congrArg Prod.fst h)
    exact hm _ _ hs
  · rw [hs] at h
    exact hf a u hs e t h

theorem RaisesIn.bind (hm : m.RaisesIn E) (hf : ∀ a, (f a).RaisesIn E) : (m >>= f).RaisesIn E :=
  fun s => (hm s).bind fun a t _ => hf a t

theorem raisesIn_pure (a : α) : (pure a : Tx σ τ ε α).RaisesIn E := by
  intro s e t hm
  exact absurd (congrArg Prod.fst hm) (by simp [pure])

theorem raisesAt_ofExcept {x : Except ε α} (h : ∀ e, x = .error e → e ∈ E) : (ofExcept x : Tx σ τ ε α).RaisesAt E s :=
  fun e _ hm => h e (congrArg Prod.fst hm)

theorem raisesIn_raise (h : e ∈ E) : (raise e : Tx σ τ ε α).RaisesIn E :=
  fun _ => raisesAt_ofExcept fun _ he => Except.error.inj he ▸ h

theorem raisesAt_orRaise {o : Option α} (h : o = none → e ∈ E) : (orRaise o e : Tx σ τ ε α).RaisesAt E s := by
  cases o with
  | none => exact raisesIn_raise (h rfl) s
  | some a => exact raisesIn_pure a s

theorem raisesAt_refuseIf {c : Prop} [Decidable c] (h : c → e ∈ E) : (refuseIf c e : Tx σ τ ε Unit).RaisesAt E s := by
  apply raisesAt_ofExcept
  intro e' he
  split at he
  · next hc => exact Except.error.inj he ▸ h hc
  · exact absurd he (by simp)

theorem raisesAt_select {f : σ → Except ε α} (h : ∀ e, f s.working = .error e → e ∈ E) :
    (select f : Tx σ τ ε α).RaisesAt E s :=
  fun e _ hm => h e (congrArg Prod.fst hm)

theorem raisesIn_query (f : σ → α) : (query f : Tx σ τ ε α).RaisesIn E := fun _ => raisesAt_select (by simp)

theorem raisesAt_execute {f : σ → Except ε σ} (h : ∀ e, f s.working = .error e → e ∈ E) :
    (execute f : Tx σ τ ε Unit).RaisesAt E s := by
  intro e t hm
  rw [Raises, execute] at hm
  cases hf : f s.working with
  | error e' =>
    rw [hf] at hm
    obtain rfl := Except.error.inj (congrArg Prod.fst hm)
    exact h _ hf
  | ok d =>
    rw [hf] at hm
    exact absurd (congrArg Prod.fst hm) (by simp)

end ProjectManagement.Library.Tx
