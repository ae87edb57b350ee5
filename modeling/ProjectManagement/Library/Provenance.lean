import Mathlib.Data.List.Induction
import ProjectManagement.Library.Refinement

/-!
Provenance. What a run ends with is there because a step made it from nothing, or made it out of something of
the state before; so it has a line of descent through the run.
-/

namespace ProjectManagement.Library

variable {σ ι κ α : Type} {next : ι → σ → σ} {root : ι → σ → κ → Prop} {link : ι → σ → κ → κ → Prop} {s : σ}
  {is js : List ι} {k k' : κ}

def reached (next : ι → σ → σ) (s : σ) (is : List ι) : σ := is.foldl (fun s i => next i s) s

theorem reached_append : reached next s (is ++ js) = reached next (reached next s is) js := List.foldl_append

/-- A line of descent through a run: `root` makes the first of the line, `link` each one out of the one before. -/
inductive Descends (next : ι → σ → σ) (root : ι → σ → κ → Prop) (link : ι → σ → κ → κ → Prop) (s : σ) : List ι → κ → Prop
  | root {before i after k} (made : root i (reached next s before) k) : Descends next root link s (before ++ i :: after) k
  | link {before i after k k'} (earlier : Descends next root link s before k) (made : link i (reached next s before) k k') :
      Descends next root link s (before ++ i :: after) k'

namespace Descends

theorem append (h : Descends next root link s is k) (js : List ι) : Descends next root link s (is ++ js) k := by
  cases h with
  | root made =>
    rw [List.append_assoc, List.cons_append]
    exact .root made
  | link earlier made =>
    rw [List.append_assoc, List.cons_append]
    exact .link earlier made

theorem mono (h : Descends next root link s is k) (hp : is <+: js) : Descends next root link s js k := by
  obtain ⟨after, rfl⟩ := hp
  exact h.append after

/-- Where each step makes only what it has a `root` or a `link` for, all that a run ends with descends from the run. -/
theorem of_reached (Has : σ → κ → Prop) (initial : ∀ k, ¬Has s k)
    (step : ∀ is i k', Has (next i (reached next s is)) k' →
      Has (reached next s is) k' ∨ root i (reached next s is) k' ∨ ∃ k, Has (reached next s is) k ∧ link i (reached next s is) k k') :
    ∀ is k, Has (reached next s is) k → Descends next root link s is k := by
  intro is
  induction is using List.reverseRecOn with
  | nil => exact fun k hk => absurd hk (initial k)
  | append_singleton is i ih =>
    intro k hk
    rw [reached_append] at hk
    rcases step is i k hk with old | made | ⟨k₀, hk₀, made⟩
    · exact (ih k old).append [i]
    · exact .root made
    · exact .link (ih k₀ hk₀) made

/-- The root of the line, when the links keep `f`. -/
theorem exists_root {f : κ → α} (keeps : ∀ i s k k', link i s k k' → f k' = f k) (h : Descends next root link s is k) :
    ∃ before i after k₀, is = before ++ i :: after ∧ root i (reached next s before) k₀ ∧ f k₀ = f k := by
  induction h with
  | @root before i after k made => exact ⟨before, i, after, k, rfl, made, rfl⟩
  | @link before i after k k' _ made ih =>
    obtain ⟨before₀, i₀, after₀, k₀, rfl, made₀, hf⟩ := ih
    refine ⟨before₀, i₀, after₀ ++ i :: after, k₀, ?_, made₀, ?_⟩
    · rw [List.append_assoc, List.cons_append]
    · rw [hf, keeps _ _ _ _ made]

end Descends

end ProjectManagement.Library
