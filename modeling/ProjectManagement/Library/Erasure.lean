import ProjectManagement.Library.Refinement

/-!
Erasure. Steps that leave an equivalent state can be struck out of a run: what is left is a run to an
equivalent state. Whether a step is kept may depend on the state it was taken in.
-/

namespace ProjectManagement.Library

variable {σ ι : Type}

def keeping (next : ι → σ → σ) (keep : ι → σ → Bool) : σ → List ι → List ι
  | _, [] => []
  | s, i :: is => if keep i s = true then i :: keeping next keep (next i s) is else keeping next keep (next i s) is

theorem keeping_eq_filter (next : ι → σ → σ) (keep : ι → σ → Bool) (s : σ) (is : List ι) :
    keeping next keep s is = ((is.zip (labels next keep s is)).filter Prod.snd).map Prod.fst := by
  induction is generalizing s with
  | nil => rfl
  | cons i is ih =>
    cases hkeep : keep i s <;> simp [keeping, labels, hkeep, ih]

theorem Run.erase {next : ι → σ → σ} {ok : ι → σ → Prop} {keep : ι → σ → Bool} {R : σ → σ → Prop} {s s' t : σ} {is : List ι}
    (kept : ∀ i s t, ok i s → R s t → keep i s = true → ok i t ∧ R (next i s) (next i t))
    (dropped : ∀ i s t, ok i s → R s t → keep i s = false → R (next i s) t) (run : Run next ok s is s') (h : R s t) :
    ∃ t', Run next ok t (keeping next keep s is) t' ∧ R s' t' := by
  induction run generalizing t with
  | nil s => exact ⟨t, .nil t, h⟩
  | @cons i s is s' hok _ ih =>
    cases hkeep : keep i s with
    | true =>
      obtain ⟨hok', hnext⟩ := kept i s t hok h hkeep
      obtain ⟨t', run', h'⟩ := ih hnext
      refine ⟨t', ?_, h'⟩
      rw [keeping, if_pos hkeep]
      exact .cons hok' run'
    | false =>
      obtain ⟨t', run', h'⟩ := ih (dropped i s t hok h hkeep)
      refine ⟨t', ?_, h'⟩
      rw [keeping, if_neg (by simp [hkeep])]
      exact run'

end ProjectManagement.Library
