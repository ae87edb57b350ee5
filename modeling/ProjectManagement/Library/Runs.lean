import Mathlib.Logic.Relation

/-!
Runs of a deterministic system. `ok` restricts the steps a run may take; it may look at the
state the step starts from.
-/

namespace ProjectManagement.Library

inductive Run {σ ι : Type} (next : ι → σ → σ) (ok : ι → σ → Prop) : σ → List ι → σ → Prop
  | nil (s) : Run next ok s [] s
  | cons {i s is t} (h : ok i s) (rest : Run next ok (next i s) is t) : Run next ok s (i :: is) t

namespace Run

variable {σ ι : Type} {next : ι → σ → σ} {ok ok' : ι → σ → Prop} {s t u : σ} {i : ι} {is js : List ι}

theorem single (h : ok i s) : Run next ok s [i] (next i s) := .cons h (.nil _)

theorem append (h : Run next ok s is t) (k : Run next ok t js u) : Run next ok s (is ++ js) u := by
  induction h with
  | nil s => exact k
  | cons h _ ih => exact .cons h (ih k)

theorem mono (h : Run next ok s is t) (hok : ∀ i s, ok i s → ok' i s) : Run next ok' s is t := by
  induction h with
  | nil s => exact .nil s
  | cons h _ ih => exact .cons (hok _ _ h) ih

theorem invariant {I : σ → Prop} (step : ∀ i s, ok i s → I s → I (next i s)) (h : Run next ok s is t)
    (hs : I s) : I t := by
  induction h with
  | nil s => exact hs
  | cons h _ ih => exact ih (step _ _ h hs)

theorem relates {I : σ → Prop} {R : σ → σ → Prop} (refl : ∀ s, R s s) (trans : ∀ s t u, R s t → R t u → R s u)
    (step : ∀ i s, ok i s → I s → I (next i s) ∧ R s (next i s)) (h : Run next ok s is t) (hs : I s) :
    R s t := by
  induction h with
  | nil s => exact refl s
  | cons h _ ih => exact trans _ _ _ (step _ _ h hs).2 (ih (step _ _ h hs).1)

end Run

end ProjectManagement.Library
