import Mathlib.Data.List.Chain
import Mathlib.Data.Nat.Notation
import Mathlib.Logic.Function.Basic
import ProjectManagement.Library.Runs

/-!
Functional refinement. A run of a system, seen through an abstraction function, is a run of an abstract
system over the labels of its steps; each label is taken in the state its step starts from.
-/

namespace ProjectManagement.Library

variable {σ ι α l : Type} {next : ι → σ → σ} {ok : ι → σ → Prop} {s t : σ} {is : List ι}

def labels (next : ι → σ → σ) (label : ι → σ → l) : σ → List ι → List l
  | _, [] => []
  | s, i :: is => label i s :: labels next label (next i s) is

theorem labels_append (label : ι → σ → l) (s : σ) (is js : List ι) : labels next label s (is ++ js) =
    labels next label s is ++ labels next label (is.foldl (fun s i => next i s) s) js := by
  induction is generalizing s with
  | nil => rfl
  | cons i is ih => exact congrArg (label i s :: ·) (ih (next i s))

theorem of_mem_labels {label : ι → σ → l} {a : l} (h : a ∈ labels next label s is) : ∃ i ∈ is, ∃ u, label i u = a := by
  induction is generalizing s with
  | nil => exact absurd h (by simp [labels])
  | cons i is ih =>
    rcases List.mem_cons.mp h with rfl | h
    · exact ⟨i, List.mem_cons_self, s, rfl⟩
    · obtain ⟨j, hj, u, hu⟩ := ih h
      exact ⟨j, List.mem_cons_of_mem _ hj, u, hu⟩

theorem foldl_labels (abs : σ → α) {label : ι → σ → l} {apply : l → α → α}
    (step : ∀ i s, abs (next i s) = apply (label i s) (abs s)) (s : σ) (is : List ι) :
    abs (is.foldl (fun s i => next i s) s) = (labels next label s is).foldl (fun a i => apply i a) (abs s) := by
  induction is generalizing s with
  | nil => rfl
  | cons i is ih =>
    rw [List.foldl_cons, ih, step]
    rfl

namespace Run

theorem eq_foldl (h : Run next ok s is t) : t = is.foldl (fun s i => next i s) s := by
  induction h with
  | nil s => rfl
  | cons _ _ ih => exact ih

theorem of_foldl (s : σ) (is : List ι) : Run next (fun _ _ => True) s is (is.foldl (fun s i => next i s) s) := by
  induction is generalizing s with
  | nil => exact .nil s
  | cons i is ih => exact .cons trivial (ih _)

theorem simulates (abs : σ → α) (I : σ → Prop) {label : ι → σ → l} {apply : l → α → α} {enabled : l → α → Prop}
    (step : ∀ i s, ok i s → I s →
      I (next i s) ∧ enabled (label i s) (abs s) ∧ abs (next i s) = apply (label i s) (abs s))
    (h : Run next ok s is t) (hs : I s) : Run apply enabled (abs s) (labels next label s is) (abs t) := by
  induction h with
  | nil s => exact .nil (abs s)
  | cons h _ ih =>
    obtain ⟨hnext, henabled, hstep⟩ := step _ _ h hs
    refine .cons henabled ?_
    rw [← hstep]
    exact ih hnext

/-- A number that goes up by one whenever something changes counts its changes, and tells its contents apart. -/
theorem counts {β : Type} [DecidableEq β] {version : β → ℕ} (seen : σ → β)
    (step : ∀ i s, ok i s → seen (next i s) ≠ seen s → version (seen (next i s)) = version (seen s) + 1) (h : Run next ok s is t) :
    version (seen t) = version (seen s) + (labels next (fun i s => decide (seen (next i s) ≠ seen s)) s is).count true ∧
      (version (seen t) = version (seen s) → seen t = seen s) := by
  induction h with
  | nil s => exact ⟨rfl, fun _ => rfl⟩
  | @cons i s is t hok _ ih =>
    obtain ⟨hcount, hsame⟩ := ih
    by_cases hchange : seen (next i s) = seen s
    · rw [hchange] at hcount hsame
      refine ⟨?_, hsame⟩
      rw [hcount, labels, List.count_cons]
      simp [hchange]
    · have hstep := step i s hok hchange
      have hlabel : decide (seen (next i s) ≠ seen s) = true := decide_eq_true hchange
      rw [labels, hlabel, List.count_cons_self]
      exact ⟨by omega, fun heq => by omega⟩

end Run

/-! Registers: the state is a function, and a label names the place it writes, with the value. -/

section Registers

variable {κ β : Type} [DecidableEq κ] {k : κ} {m m' : κ → β} {log : List (Option (κ × β))}

def store : Option (κ × β) → (κ → β) → κ → β
  | none, m => m
  | some (k, b), m => Function.update m k b

/-- What is written follows on what was there. -/
def Follows (R : β → β → Prop) : Option (κ × β) → (κ → β) → Prop
  | none, _ => True
  | some (k, b), m => R (m k) b

def writesTo (k : κ) (log : List (Option (κ × β))) : List β := log.filterMap fun a => (a.filter fun w => w.1 = k).map Prod.snd

theorem writesTo_cons (k : κ) (a : Option (κ × β)) (log : List (Option (κ × β))) (m : κ → β) :
    (∃ b, a = some (k, b) ∧ writesTo k (a :: log) = b :: writesTo k log ∧ store a m k = b) ∨
      (writesTo k (a :: log) = writesTo k log ∧ store a m k = m k) := by
  cases a with
  | none => exact Or.inr ⟨rfl, rfl⟩
  | some w =>
    obtain ⟨k', b⟩ := w
    by_cases hk : k' = k
    · subst hk
      exact Or.inl ⟨b, rfl, by simp [writesTo, Option.filter_some], by simp [store]⟩
    · refine Or.inr ⟨by simp [writesTo, Option.filter_some, hk], ?_⟩
      apply Function.update_of_ne
      exact Ne.symm hk

/-- A register holds what was last written to it. -/
theorem Run.last_write {ok : Option (κ × β) → (κ → β) → Prop} (h : Run store ok m log m') (k : κ) :
    m' k = (writesTo k log).getLastD (m k) := by
  induction h with
  | nil m => rfl
  | @cons a m log m' _ _ ih =>
    rw [ih]
    rcases writesTo_cons k a log m with ⟨b, -, hwritten, hstore⟩ | ⟨hwritten, hstore⟩
    · rw [hwritten, hstore, List.getLastD_cons]
    · rw [hwritten, hstore]

/-- The values written to one place follow on each other. -/
theorem Run.writes_chain {R : β → β → Prop} (h : Run store (Follows R) m log m') (k : κ) : (m k :: writesTo k log).IsChain R := by
  induction h with
  | nil m => exact .singleton _
  | @cons a m log m' hfollows _ ih =>
    rcases writesTo_cons k a log m with ⟨b, rfl, hwritten, hstore⟩ | ⟨hwritten, hstore⟩
    · rw [hwritten]
      rw [hstore] at ih
      exact .cons_cons hfollows ih
    · rw [hwritten, ← hstore]
      exact ih

end Registers

end ProjectManagement.Library
