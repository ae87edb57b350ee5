import ProjectManagement.Library.Raising
import ProjectManagement.TaskSessions

/-! The errors of the statements that write one row, and of reads. -/

namespace ProjectManagement

open Library

variable {D : Deployment} {c : Call} {e : Raised} {engine : Engine} {d : Db}

theorem checked_error {constraints : List (Bool × Raised)} {result : Option Db} (h : checked constraints result = .error e) :
    e = .integrity ∧ result = none ∨ ∃ violated ∈ constraints, violated.1 = true ∧ violated.2 = e := by
  unfold checked at h
  cases hf : constraints.find? Prod.fst with
  | some violated =>
    simp only [hf, Except.error.injEq] at h
    exact Or.inr ⟨violated, List.mem_of_find?_eq_some hf, List.find?_some hf, h⟩
  | none =>
    simp only [hf] at h
    cases result with
    | none => exact Or.inl ⟨(Except.error.inj h).symm, rfl⟩
    | some d => exact absurd h (by simp)

theorem scalarOneOrNone_error {ρ : Type} {rows : List ρ} (h : scalarOneOrNone rows = .error e) :
    e = .unexpected ∧ 2 ≤ rows.length := by
  rcases rows with _ | ⟨a, _ | ⟨b, l⟩⟩
  · simp [scalarOneOrNone] at h
  · simp [scalarOneOrNone] at h
  · simp only [scalarOneOrNone, Except.error.injEq] at h
    exact ⟨h.symm, by simp⟩

theorem UserRepository.oneWithEmail_error {D : Deployment} {email : String} (h : oneWithEmail D email d = .error e) :
    e = .unexpected := by
  unfold oneWithEmail at h
  split at h
  · exact (Except.error.inj h).symm
  · exact (scalarOneOrNone_error h).1

theorem read_error {α : Type} {m : App α} {E : Set Raised} (h : ∀ b, m.RaisesAt E ⟨d, d, b⟩) (hm : read m d = .error e) : e ∈ E :=
  h _ e _ (Prod.ext hm rfl)

theorem Db.insertRefreshToken_error {t : RefreshToken} (h : Db.insertRefreshToken engine t d = .error e) : e = .integrity := by
  rcases checked_error h with ⟨he, -⟩ | ⟨violated, hmem, -, rfl⟩
  · exact he
  · simp only [List.mem_cons, List.not_mem_nil, or_false] at hmem
    rcases hmem with rfl | rfl <;> rfl

end ProjectManagement
