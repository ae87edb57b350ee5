import ProjectManagement.Library.Table

/-!
A table whose rows are deleted by a mark, seen as the list of what its live rows say. An insertion adds an entry at the end, a
change of a row changes its entry in place, and the mark takes the entry off.
-/

namespace ProjectManagement.Library

inductive ListMove (κ β : Type)
  | idle
  | added (k : κ) (b : β)
  | changed (k : κ) (f : β → β)
  | removed (k : κ)

variable {ρ κ β : Type} [DecidableEq κ]

def ListMove.apply : ListMove κ β → List (κ × β) → List (κ × β)
  | idle, l => l
  | added k b, l => l ++ [(k, b)]
  | changed k f, l => l.map fun x => if x.1 = k then (x.1, f x.2) else x
  | removed k, l => l.filter fun x => x.1 ≠ k

variable [Keyed ρ κ]

def liveRows (live : ρ → Bool) (view : ρ → β) (t : Table ρ) : List (κ × β) :=
  (t.rows.filter live).map fun r => (Keyed.key r, view r)

variable {live : ρ → Bool} {view : ρ → β} {t u : Table ρ} {r r' : ρ}

omit [DecidableEq κ] in
theorem mem_liveRows {x : κ × β} : x ∈ liveRows live view t ↔ ∃ r ∈ t.rows, live r = true ∧ Keyed.key r = x.1 ∧ view r = x.2 := by
  simp only [liveRows, List.mem_map, List.mem_filter, Prod.ext_iff, and_assoc]

theorem liveRows_append (rows : u.rows = t.rows ++ [r]) (hr : live r = true) :
    liveRows live view u = (ListMove.added (Keyed.key r) (view r)).apply (liveRows live view t) := by
  rw [liveRows, rows, List.filter_append, List.map_append]
  simp [hr, ListMove.apply, liveRows]

theorem liveRows_put {f : β → β} (hr : r ∈ t.rows) (hk : Keyed.key r' = Keyed.key r) (hlive : live r = true)
    (hlive' : live r' = true) (hview : view r' = f (view r)) :
    liveRows live view (t.put r') = (ListMove.changed (Keyed.key r) f).apply (liveRows live view t) := by
  have same : ∀ x ∈ t.rows, Keyed.key x = Keyed.key r' → x = r := fun x hx h => t.eq_of_key hx hr (h.trans hk)
  have hfilter : (t.put r').rows.filter live = (t.rows.filter live).map fun x => if Keyed.key x = Keyed.key r' then r' else x := by
    apply Table.filter_put_map
    intro x hx hkey
    rw [same x hx hkey, hlive, hlive']
  rw [liveRows, hfilter, List.map_map, ListMove.apply, liveRows, List.map_map]
  apply List.map_congr_left
  intro x hx
  by_cases hkey : Keyed.key x = Keyed.key r
  · obtain rfl := same x (List.mem_filter.mp hx).1 (hkey.trans hk.symm)
    simp [hk, hview]
  · simp [hk, hkey]

theorem liveRows_put_dead {k : κ} (hk : Keyed.key r = k) (hdead : live r = false) :
    liveRows live view (t.put r) = (ListMove.removed k).apply (liveRows live view t) := by
  subst hk
  have hfilter : (t.put r).rows.filter live = (t.rows.filter live).filter fun x => Keyed.key x ≠ Keyed.key r := by
    have hlive : t.rows.filter (live ∘ fun x => if Keyed.key x = Keyed.key r then r else x) =
        t.rows.filter fun x => decide (Keyed.key x ≠ Keyed.key r) && live x := by
      apply List.filter_congr
      intro x _
      by_cases hkey : Keyed.key x = Keyed.key r <;> simp [hkey, hdead]
    rw [List.filter_filter, Table.put, List.filter_map, hlive]
    conv_rhs => rw [← List.map_id (List.filter _ t.rows)]
    apply List.map_congr_left
    intro x hx
    have hne := (List.mem_filter.mp hx).2
    rw [Bool.and_eq_true, decide_eq_true_iff] at hne
    exact if_neg hne.1
  rw [liveRows, hfilter, ListMove.apply, liveRows, List.filter_map]
  rfl

end ProjectManagement.Library
