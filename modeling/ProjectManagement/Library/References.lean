import ProjectManagement.Library.Table

/-!
References: a column of one table holds keys of another, or nothing. One rule for each statement on the table
that refers, and one for what may happen to the table that is referred to.
-/

namespace ProjectManagement.Library.Table

open Keyed (key)

variable {ρ τ κ κ' : Type} [Keyed ρ κ'] [Keyed τ κ] {column : ρ → Option κ} {t u : Table ρ} {target target' : Table τ} {r r' : ρ}

def Has (target : Table τ) (k : κ) : Prop := ∃ x ∈ target.rows, key x = k

def Refers (t : Table ρ) (column : ρ → Option κ) (target : Table τ) : Prop :=
  ∀ r ∈ t.rows, ∀ k, column r = some k → target.Has k

theorem Has.keeps {live : τ → Bool} {k : κ} (h : target.Has k) (keeps : target.Keeps live target') : target'.Has k := by
  obtain ⟨x, hx, rfl⟩ := h
  obtain ⟨y, hy, hk, -⟩ := keeps x hx
  exact ⟨y, hy, hk⟩

namespace Refers

theorem empty : Refers (Table.empty : Table ρ) column target := by simp [Refers, Table.empty]

theorem keeps {live : τ → Bool} (h : t.Refers column target) (keeps : target.Keeps live target') : t.Refers column target' :=
  fun r hr k hk => (h r hr k hk).keeps keeps

theorem append (h : t.Refers column target) (rows : u.rows = t.rows ++ [r]) (hr : ∀ k, column r = some k → target.Has k) :
    u.Refers column target :=
  Table.forall_append h rows hr

theorem put [DecidableEq κ'] (h : t.Refers column target) (hr : ∀ k, column r = some k → target.Has k) :
    (t.put r).Refers column target :=
  Table.forall_put h hr

/-- A row is written over that keeps its reference. -/
theorem put_same [DecidableEq κ'] (h : t.Refers column target) (hr : r ∈ t.rows) (hcolumn : column r' = column r) :
    (t.put r').Refers column target :=
  h.put fun k hk => h r hr k (hcolumn.symm.trans hk)

theorem updateWhere {p : ρ → Bool} {f : ρ → ρ} {hf : ∀ r, key (f r) = key r} (h : t.Refers column target)
    (hcolumn : ∀ r, column (f r) = column r) : (t.updateWhere p f hf).Refers column target := by
  intro r hr k hk
  rcases Table.mem_updateWhere.mp hr with ⟨hr, -⟩ | ⟨x, hx, -, rfl⟩
  · exact h r hr k hk
  · exact h x hx k ((hcolumn x).symm.trans hk)

theorem deleteWhere {p : ρ → Bool} (h : t.Refers column target) : (t.deleteWhere p).Refers column target :=
  fun r hr => h r (Table.mem_deleteWhere.mp hr).1

end Refers

end ProjectManagement.Library.Table
