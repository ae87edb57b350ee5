import Mathlib.Data.List.Nodup
import Mathlib.Data.List.Forall2
import Mathlib.Logic.Function.Basic

/-!
Keyed tables. A table is a list of rows in insertion order whose primary keys
are pairwise distinct; every operation rebuilds that fact, so no table with a
repeated key can be written down.
-/

namespace ProjectManagement.Library

class Keyed (ρ : Type) (κ : outParam Type) where
  key : ρ → κ

structure Table (ρ : Type) {κ : Type} [Keyed ρ κ] where
  rows : List ρ
  nodup : (rows.map Keyed.key).Nodup

namespace Table

variable {ρ κ : Type} [Keyed ρ κ]

open Keyed (key)

def empty : Table ρ := ⟨[], by simp⟩

@[ext] theorem ext {t u : Table ρ} (h : t.rows = u.rows) : t = u := by
  cases t; cases u; cases h; rfl

theorem eq_of_key (t : Table ρ) {x y : ρ} (hx : x ∈ t.rows) (hy : y ∈ t.rows)
    (h : key x = key y) : x = y :=
  List.inj_on_of_nodup_map t.nodup hx hy h

theorem filter_eq_singleton (t : Table ρ) {p : ρ → Bool} {x : ρ} (hx : x ∈ t.rows)
    (h : ∀ y ∈ t.rows, p y = true ↔ y = x) : t.rows.filter p = [x] := by
  have hnodup : (t.rows.filter p).Nodup := (List.Nodup.of_map _ t.nodup).filter p
  have hall : ∀ y ∈ t.rows.filter p, y = x := fun y hy => (h y (List.mem_filter.mp hy).1).mp (List.mem_filter.mp hy).2
  have hmem : x ∈ t.rows.filter p := List.mem_filter.mpr ⟨hx, (h x hx).mpr rfl⟩
  rw [List.eq_replicate_of_mem hall, List.nodup_replicate] at hnodup
  have hlen := List.length_pos_of_mem hmem
  rw [List.eq_replicate_of_mem hall, show (t.rows.filter p).length = 1 by omega]
  rfl

theorem forall_append {t u : Table ρ} {r : ρ} {P : ρ → Prop} (h : ∀ x ∈ t.rows, P x) (rows : u.rows = t.rows ++ [r]) (hr : P r) :
    ∀ x ∈ u.rows, P x := by
  intro x hx
  rw [rows, List.mem_append, List.mem_singleton] at hx
  rcases hx with hx | rfl
  · exact h x hx
  · exact hr

theorem key_ne_of_append {t u : Table ρ} {r x : ρ} (h : u.rows = t.rows ++ [r]) (hx : x ∈ t.rows) :
    key x ≠ key r := by
  intro he
  have hn := u.nodup
  rw [h, List.map_append, List.nodup_append] at hn
  exact hn.2.2 (key x) (List.mem_map.mpr ⟨x, hx, rfl⟩) (key r) (by simp) he

/-- A bulk `UPDATE`: `f` may not touch the key. -/
def updateWhere (t : Table ρ) (p : ρ → Bool) (f : ρ → ρ) (hf : ∀ r, key (f r) = key r) : Table ρ where
  rows := t.rows.map (fun r => if p r then f r else r)
  nodup := by
    have h : (t.rows.map (fun r => if p r then f r else r)).map key = t.rows.map key := by
      rw [List.map_map]
      apply List.map_congr_left
      intro r _
      by_cases hp : p r <;> simp [hp, hf]
    rw [h]
    exact t.nodup

theorem mem_updateWhere {t : Table ρ} {p : ρ → Bool} {f : ρ → ρ} {hf : ∀ r, key (f r) = key r} {x : ρ} :
    x ∈ (t.updateWhere p f hf).rows ↔ (x ∈ t.rows ∧ p x = false) ∨ ∃ y ∈ t.rows, p y = true ∧ f y = x := by
  simp only [updateWhere, List.mem_map]
  constructor
  · rintro ⟨y, hy, rfl⟩
    cases hp : p y with
    | true => exact Or.inr ⟨y, hy, hp, by simp⟩
    | false => exact Or.inl ⟨by simpa using hy, by simpa using hp⟩
  · rintro (⟨hx, hp⟩ | ⟨y, hy, hp, rfl⟩)
    · exact ⟨x, hx, by simp [hp]⟩
    · exact ⟨y, hy, by simp [hp]⟩

theorem filter_updateWhere {t : Table ρ} {p q : ρ → Bool} {f : ρ → ρ} {hf : ∀ r, key (f r) = key r}
    (hq : ∀ r, q (f r) = q r) :
    (t.updateWhere p f hf).rows.filter q = (t.rows.filter q).map (fun r => if p r then f r else r) := by
  simp only [updateWhere, List.filter_map]
  congr 1
  apply List.filter_congr
  intro x _
  by_cases hp : p x <;> simp [hp, hq]

theorem map_updateWhere {β : Type} {t : Table ρ} {p : ρ → Bool} {f : ρ → ρ} {hf : ∀ r, key (f r) = key r} {g : ρ → β}
    (h : ∀ r, g (f r) = g r) : (t.updateWhere p f hf).rows.map g = t.rows.map g := by
  simp only [updateWhere, List.map_map]
  apply List.map_congr_left
  intro x _
  by_cases hp : p x <;> simp [hp, h]

theorem filter_updateWhere_of_not {t : Table ρ} {p q : ρ → Bool} {f : ρ → ρ} {hf : ∀ r, key (f r) = key r}
    (hq : ∀ r, q (f r) = q r) (hp : ∀ r ∈ t.rows, q r = true → p r = false) :
    (t.updateWhere p f hf).rows.filter q = t.rows.filter q := by
  rw [filter_updateWhere hq]
  conv_rhs => rw [← List.map_id (t.rows.filter q)]
  apply List.map_congr_left
  intro x hx
  obtain ⟨hx, hqx⟩ := List.mem_filter.mp hx
  simp [hp x hx hqx]

def deleteWhere (t : Table ρ) (p : ρ → Bool) : Table ρ where
  rows := t.rows.filter (fun r => !p r)
  nodup := t.nodup.sublist (List.filter_sublist.map key)

theorem mem_deleteWhere {t : Table ρ} {p : ρ → Bool} {x : ρ} :
    x ∈ (t.deleteWhere p).rows ↔ x ∈ t.rows ∧ p x = false := by
  simp [deleteWhere]

section Keys

variable [DecidableEq κ]

/-- `INSERT`: rejected when the key is taken. -/
def insert? (t : Table ρ) (r : ρ) : Option (Table ρ) :=
  if h : key r ∈ t.rows.map key then none
  else some
    { rows := t.rows ++ [r]
      nodup := by
        rw [List.map_append, List.map_singleton]
        exact List.nodup_append.mpr ⟨t.nodup, by simp, by
          intro a ha b hb
          rw [List.mem_singleton.mp hb]
          exact fun e => h (e ▸ ha)⟩ }

theorem insert?_eq_some {t u : Table ρ} {r : ρ} :
    t.insert? r = some u ↔ (∀ x ∈ t.rows, key x ≠ key r) ∧ u.rows = t.rows ++ [r] := by
  unfold insert?
  split
  · rename_i h
    obtain ⟨x, hx, he⟩ := List.mem_map.mp h
    simp only [reduceCtorEq, false_iff, not_and]
    exact fun hne => absurd he (hne x hx)
  · rename_i h
    simp only [Option.some.injEq]
    constructor
    · rintro rfl
      exact ⟨fun x hx he => h (List.mem_map.mpr ⟨x, hx, he⟩), rfl⟩
    · rintro ⟨_, hr⟩
      exact Table.ext hr.symm

theorem insert?_of_new {t : Table ρ} {r : ρ} (new : ∀ x ∈ t.rows, key x ≠ key r) :
    ∃ u, t.insert? r = some u ∧ u.rows = t.rows ++ [r] := by
  have hmem : key r ∉ t.rows.map key := fun h => by
    obtain ⟨x, hx, he⟩ := List.mem_map.mp h
    exact new x hx he
  rw [insert?, dif_neg hmem]
  exact ⟨_, rfl, rfl⟩

/-- `UPDATE` by primary key: the row with `r`'s key becomes `r`. -/
def put (t : Table ρ) (r : ρ) : Table ρ where
  rows := t.rows.map (fun x => if key x = key r then r else x)
  nodup := by
    have h : (t.rows.map (fun x => if key x = key r then r else x)).map key = t.rows.map key := by
      rw [List.map_map]
      apply List.map_congr_left
      intro x _
      by_cases hx : key x = key r <;> simp [hx]
    rw [h]
    exact t.nodup

theorem mem_put {t : Table ρ} {r x : ρ} :
    x ∈ (t.put r).rows ↔ (x ∈ t.rows ∧ key x ≠ key r) ∨ (x = r ∧ ∃ y ∈ t.rows, key y = key r) := by
  simp only [put, List.mem_map]
  constructor
  · rintro ⟨y, hy, rfl⟩
    by_cases hk : key y = key r
    · exact Or.inr ⟨by simp [hk], y, hy, hk⟩
    · exact Or.inl ⟨by simpa [hk] using hy, by simp [hk]⟩
  · rintro (⟨hx, hk⟩ | ⟨rfl, y, hy, hk⟩)
    · exact ⟨x, hx, by simp [hk]⟩
    · exact ⟨y, hy, by simp [hk]⟩

theorem mem_put_self {t : Table ρ} {r y : ρ} (hy : y ∈ t.rows) (hk : key y = key r) : r ∈ (t.put r).rows :=
  mem_put.mpr (Or.inr ⟨rfl, y, hy, hk⟩)

theorem of_mem_put {t : Table ρ} {r x : ρ} (h : x ∈ (t.put r).rows) :
    x = r ∨ (x ∈ t.rows ∧ key x ≠ key r) := by
  rcases mem_put.mp h with h | h
  · exact Or.inr h
  · exact Or.inl h.1

theorem forall_put {t : Table ρ} {r : ρ} {P : ρ → Prop} (h : ∀ x ∈ t.rows, P x) (hr : P r) : ∀ x ∈ (t.put r).rows, P x := by
  intro x hx
  rcases of_mem_put hx with rfl | ⟨hx, -⟩
  · exact hr
  · exact h x hx

theorem put_of_mem {t : Table ρ} {r : ρ} (h : r ∈ t.rows) : t.put r = t := by
  apply Table.ext
  simp only [put]
  conv_rhs => rw [← List.map_id t.rows]
  apply List.map_congr_left
  intro x hx
  by_cases hk : key x = key r
  · simp [t.eq_of_key hx h hk]
  · simp [hk]

theorem map_put {β : Type} {t : Table ρ} {r : ρ} {f : ρ → β} (h : ∀ x ∈ t.rows, key x = key r → f x = f r) :
    (t.put r).rows.map f = t.rows.map f := by
  simp only [put, List.map_map]
  apply List.map_congr_left
  intro x hx
  by_cases hk : key x = key r <;> simp [hk, h x hx]

theorem filter_put_map {t : Table ρ} {r : ρ} {p : ρ → Bool} (h : ∀ x ∈ t.rows, key x = key r → p x = p r) :
    (t.put r).rows.filter p = (t.rows.filter p).map (fun x => if key x = key r then r else x) := by
  simp only [put, List.filter_map]
  congr 1
  apply List.filter_congr
  intro x hx
  by_cases hk : key x = key r
  · simp [hk, h x hx hk]
  · simp [hk]

theorem filter_put {t : Table ρ} {r : ρ} {p : ρ → Bool} (h : ∀ x ∈ t.rows, key x = key r → p x = false)
    (hr : p r = false) : (t.put r).rows.filter p = t.rows.filter p := by
  rw [filter_put_map fun x hx hk => (h x hx hk).trans hr.symm]
  conv_rhs => rw [← List.map_id (t.rows.filter p)]
  apply List.map_congr_left
  intro x hx
  obtain ⟨hx, hpx⟩ := List.mem_filter.mp hx
  by_cases hk : key x = key r
  · rw [h x hx hk] at hpx
    exact absurd hpx (by simp)
  · simp [hk]

end Keys

theorem find?_eq_some [DecidableEq κ] {t : Table ρ} {p : ρ → Bool} {k : κ} {r : ρ} :
    t.rows.find? (fun x => p x && key x == k) = some r ↔ r ∈ t.rows ∧ p r = true ∧ key r = k := by
  constructor
  · intro h
    have hp := List.find?_some h
    simp only [Bool.and_eq_true, beq_iff_eq] at hp
    exact ⟨List.mem_of_find?_eq_some h, hp⟩
  · rintro ⟨hr, hp, hk⟩
    cases hf : t.rows.find? (fun x => p x && key x == k) with
    | none => exact absurd (List.find?_eq_none.mp hf r hr) (by simp [hp, hk])
    | some x =>
      have hx := List.find?_some hf
      simp only [Bool.and_eq_true, beq_iff_eq] at hx
      rw [t.eq_of_key (List.mem_of_find?_eq_some hf) hr (hx.2.trans hk.symm)]

theorem find?_put [DecidableEq κ] {t : Table ρ} {p : ρ → Bool} {k : κ} {r r' : ρ}
    (found : t.rows.find? (fun x => p x && key x == k) = some r) (hk : key r' = key r) (hp : p r' = p r) :
    (t.put r').rows.find? (fun x => p x && key x == k) = some r' := by
  obtain ⟨hr, hpr, hkr⟩ := find?_eq_some.mp found
  exact find?_eq_some.mpr ⟨mem_put_self hr hk.symm, hp.trans hpr, hk.trans hkr⟩

theorem find?_key_eq_some [DecidableEq κ] {t : Table ρ} {k : κ} {r : ρ} :
    t.rows.find? (fun x => key x == k) = some r ↔ r ∈ t.rows ∧ key r = k := by
  simpa using find?_eq_some (t := t) (p := fun _ => true) (k := k) (r := r)

section Changes

variable [DecidableEq κ] {t u : Table ρ} {r r' : ρ} {k : κ} {A : Option ρ → Option ρ → Prop}

def lookup (t : Table ρ) (k : κ) : Option ρ := t.rows.find? (fun r => key r == k)

theorem lookup_eq_some : t.lookup k = some r ↔ r ∈ t.rows ∧ key r = k := find?_key_eq_some

theorem lookup_eq_none : t.lookup k = none ↔ ∀ r ∈ t.rows, key r ≠ k := by simp [lookup]

theorem lookup_append (h : u.rows = t.rows ++ [r]) (hk : key r ≠ k) : u.lookup k = t.lookup k := by
  rw [lookup, h, List.find?_append]
  simp [hk, lookup]

theorem lookup_put (hk : key r ≠ k) : (t.put r).lookup k = t.lookup k := by
  cases hl : t.lookup k with
  | none =>
    rw [lookup_eq_none] at hl ⊢
    intro x hx
    rcases of_mem_put hx with rfl | ⟨hx, -⟩
    · exact hk
    · exact hl x hx
  | some x =>
    obtain ⟨hx, rfl⟩ := lookup_eq_some.mp hl
    exact lookup_eq_some.mpr ⟨mem_put.mpr (Or.inl ⟨hx, hk.symm⟩), rfl⟩

theorem lookup_appended (h : u.rows = t.rows ++ [r]) : u.lookup = Function.update t.lookup (key r) (some r) := by
  funext k
  by_cases hk : k = key r
  · subst hk
    rw [Function.update_self]
    exact lookup_eq_some.mpr ⟨by simp [h], rfl⟩
  · rw [Function.update_of_ne hk]
    exact lookup_append h (Ne.symm hk)

theorem lookup_replaced (hr : r ∈ t.rows) (hk : key r' = key r) :
    (t.put r').lookup = Function.update t.lookup (key r) (some r') := by
  funext k
  by_cases hkey : k = key r
  · subst hkey
    rw [Function.update_self]
    exact lookup_eq_some.mpr ⟨mem_put_self hr hk.symm, hk⟩
  · rw [Function.update_of_ne hkey]
    apply lookup_put
    rw [hk]
    exact Ne.symm hkey

/-- `INSERT` where the key is free. -/
def inserted (t : Table ρ) (r : ρ) : Table ρ := (t.insert? r).getD t

theorem inserted_rows (new : ∀ x ∈ t.rows, key x ≠ key r) : (t.inserted r).rows = t.rows ++ [r] := by
  obtain ⟨u, hinsert, rows⟩ := insert?_of_new new
  rw [inserted, hinsert]
  exact rows

theorem lookup_inserted : (t.inserted r).lookup k = if k = key r then some ((t.lookup k).getD r) else t.lookup k := by
  rw [inserted]
  cases hinsert : t.insert? r with
  | none =>
    rw [Option.getD_none]
    split
    · next hk =>
      subst hk
      cases hl : t.lookup (key r) with
      | some x => rfl
      | none =>
        obtain ⟨u, hu, -⟩ := insert?_of_new (lookup_eq_none.mp hl)
        rw [hinsert] at hu
        exact absurd hu (by simp)
    · rfl
  | some u =>
    obtain ⟨new, rows⟩ := insert?_eq_some.mp hinsert
    rw [Option.getD_some, lookup_appended rows, Function.update_apply]
    split
    · next hk =>
      subst hk
      rw [lookup_eq_none.mpr new]
      rfl
    · rfl

theorem lookup_deleteWhere {l : κ} : (t.deleteWhere fun r => key r == l).lookup k = if k = l then none else t.lookup k := by
  split
  · next hk =>
    rw [lookup_eq_none]
    intro x hx hkey
    exact absurd (mem_deleteWhere.mp hx).2 (by simp [hkey, hk])
  · next hk =>
    cases hl : t.lookup k with
    | none =>
      rw [lookup_eq_none] at hl ⊢
      exact fun x hx => hl x (mem_deleteWhere.mp hx).1
    | some x =>
      obtain ⟨hx, rfl⟩ := lookup_eq_some.mp hl
      exact lookup_eq_some.mpr ⟨mem_deleteWhere.mpr ⟨hx, by simpa using hk⟩, rfl⟩

theorem lookup_updateWhere {p : ρ → Bool} {f : ρ → ρ} {hf : ∀ r, key (f r) = key r} :
    (t.updateWhere p f hf).lookup k = (t.lookup k).map fun r => if p r then f r else r := by
  cases hl : t.lookup k with
  | none =>
    rw [Option.map_none, lookup_eq_none]
    rw [lookup_eq_none] at hl
    intro x hx
    rcases mem_updateWhere.mp hx with ⟨hx, -⟩ | ⟨y, hy, -, rfl⟩
    · exact hl x hx
    · rw [hf]
      exact hl y hy
  | some x =>
    obtain ⟨hx, rfl⟩ := lookup_eq_some.mp hl
    rw [Option.map_some, lookup_eq_some]
    refine ⟨List.mem_map.mpr ⟨x, hx, rfl⟩, ?_⟩
    split
    · exact hf x
    · rfl

/-- Under every key the row is the same in both tables, or the change from the old to the new one is allowed;
`none` stands for no row. -/
def Changes (t u : Table ρ) (A : Option ρ → Option ρ → Prop) : Prop :=
  ∀ k, u.lookup k = t.lookup k ∨ A (t.lookup k) (u.lookup k)

theorem Changes.refl : t.Changes t A := fun _ => Or.inl rfl

theorem Changes.append (rows : u.rows = t.rows ++ [r]) (h : A none (some r)) : t.Changes u A := by
  intro k
  by_cases hk : key r = k
  · subst hk
    have hnew : t.lookup (key r) = none := lookup_eq_none.mpr fun x hx => key_ne_of_append rows hx
    have hu : u.lookup (key r) = some r := lookup_eq_some.mpr ⟨by simp [rows], rfl⟩
    rw [hnew, hu]
    exact Or.inr h
  · exact Or.inl (lookup_append rows hk)

theorem Changes.put (hr : r ∈ t.rows) (hk : key r' = key r) (h : A (some r) (some r')) : t.Changes (t.put r') A := by
  intro k
  by_cases hk' : key r' = k
  · subst hk'
    have hold : t.lookup (key r') = some r := lookup_eq_some.mpr ⟨hr, hk.symm⟩
    have hnew : (t.put r').lookup (key r') = some r' := lookup_eq_some.mpr ⟨mem_put_self hr hk.symm, rfl⟩
    rw [hold, hnew]
    exact Or.inr h
  · exact Or.inl (lookup_put hk')

theorem Changes.append_put (rows : u.rows = t.rows ++ [r]) {x x' : ρ} (hx : x ∈ t.rows) (hk : key x' = key x)
    (h : A none (some r)) (hput : A (some x) (some x')) : t.Changes (u.put x') A := by
  intro k
  by_cases hk' : key x' = k
  · have hold : t.lookup k = some x := lookup_eq_some.mpr ⟨hx, hk.symm.trans hk'⟩
    have hnew : (u.put x').lookup k = some x' :=
      lookup_eq_some.mpr ⟨mem_put_self (show x ∈ u.rows by simp [rows, hx]) hk.symm, hk'⟩
    rw [hold, hnew]
    exact Or.inr hput
  · rw [lookup_put hk']
    exact Changes.append rows h k

theorem Changes.updateWhere {p : ρ → Bool} {f : ρ → ρ} {hf : ∀ r, key (f r) = key r}
    (h : ∀ r ∈ t.rows, p r = true → A (some r) (some (f r))) : t.Changes (t.updateWhere p f hf) A := by
  intro k
  rw [lookup_updateWhere]
  cases hl : t.lookup k with
  | none => exact Or.inl rfl
  | some x =>
    rw [Option.map_some]
    cases hp : p x with
    | true => exact Or.inr (h x (lookup_eq_some.mp hl).1 hp)
    | false => exact Or.inl rfl

end Changes

/-! No row is lost, and a row that is not `live` stays as it is. -/

section Keeps

variable {live : ρ → Bool} {t u v : Table ρ} {r r' : ρ}

def Keeps (live : ρ → Bool) (t u : Table ρ) : Prop :=
  ∀ r ∈ t.rows, ∃ r' ∈ u.rows, key r' = key r ∧ (live r = false → r' = r)

theorem Keeps.refl : t.Keeps live t := fun r hr => ⟨r, hr, rfl, fun _ => rfl⟩

theorem Keeps.trans (h : t.Keeps live u) (h' : u.Keeps live v) : t.Keeps live v := by
  intro r hr
  obtain ⟨s, hs, hkey, hsame⟩ := h r hr
  obtain ⟨x, hx, hkey', hsame'⟩ := h' s hs
  refine ⟨x, hx, hkey'.trans hkey, fun hdead => ?_⟩
  have heq := hsame hdead
  rw [hsame' (heq ▸ hdead), heq]

theorem Keeps.mem (h : t.Keeps live u) (hr : r ∈ t.rows) (hdead : live r = false) : r ∈ u.rows := by
  obtain ⟨r', hr', -, hsame⟩ := h r hr
  rw [← hsame hdead]
  exact hr'

theorem Keeps.append (rows : u.rows = t.rows ++ [r]) : t.Keeps live u := by
  intro x hx
  refine ⟨x, ?_, rfl, fun _ => rfl⟩
  rw [rows]
  exact List.mem_append_left _ hx

theorem Keeps.put [DecidableEq κ] (hr : r ∈ t.rows) (hlive : live r = true) (hkey : key r' = key r) :
    t.Keeps live (t.put r') := by
  intro x hx
  by_cases hk : key x = key r'
  · obtain rfl : x = r := t.eq_of_key hx hr (hk.trans hkey)
    refine ⟨r', mem_put_self hr hkey.symm, hkey, fun hdead => ?_⟩
    rw [hlive] at hdead
    exact absurd hdead (by simp)
  · exact ⟨x, mem_put.mpr (Or.inl ⟨hx, hk⟩), rfl, fun _ => rfl⟩

theorem Keeps.updateWhere {p : ρ → Bool} {f : ρ → ρ} {hf : ∀ r, key (f r) = key r} (hlive : ∀ r ∈ t.rows, live r = true) :
    t.Keeps live (t.updateWhere p f hf) := by
  intro x hx
  refine ⟨if p x then f x else x, List.mem_map_of_mem hx, ?_, fun hdead => ?_⟩
  · split
    · exact hf x
    · rfl
  · rw [hlive x hx] at hdead
    exact absurd hdead (by simp)

end Keeps

/-! A column that tells the `live` rows apart. -/

section Identifies

variable {β : Type} {live : ρ → Bool} {column : ρ → β} {t u : Table ρ} {r x : ρ}

def Identifies (live : ρ → Bool) (column : ρ → β) (t : Table ρ) : Prop :=
  ∀ x ∈ t.rows, live x = true → ∀ y ∈ t.rows, live y = true → column x = column y → x = y

theorem identifies_iff_nodup : t.Identifies live column ↔ ((t.rows.filter live).map column).Nodup := by
  rw [List.nodup_map_iff_inj_on ((List.Nodup.of_map _ t.nodup).filter live)]
  simp only [List.mem_filter, and_imp]
  exact ⟨fun h x hx hl y hy hl' => h x hx hl y hy hl', fun h x hx hl y hy hl' => h x hx hl y hy hl'⟩

theorem Identifies.filter_eq_singleton [DecidableEq β] (h : t.Identifies live column) (hx : x ∈ t.rows) (hl : live x = true) :
    t.rows.filter (fun y => live y && column y == column x) = [x] := by
  apply t.filter_eq_singleton hx
  intro y hy
  rw [Bool.and_eq_true, beq_iff_eq]
  constructor
  · rintro ⟨hly, hc⟩
    exact h y hy hly x hx hl hc
  · rintro rfl
    exact ⟨hl, rfl⟩

theorem Identifies.append (h : t.Identifies live column) (rows : u.rows = t.rows ++ [r])
    (new : ∀ x ∈ t.rows, live x = true → column x ≠ column r) : u.Identifies live column := by
  intro x hx hl y hy hl' hc
  rw [rows, List.mem_append, List.mem_singleton] at hx hy
  rcases hx with hx | rfl <;> rcases hy with hy | rfl
  · exact h x hx hl y hy hl' hc
  · exact absurd hc (new x hx hl)
  · exact absurd hc.symm (new y hy hl')
  · rfl

theorem Identifies.put [DecidableEq κ] (h : t.Identifies live column)
    (new : live r = true → ∀ x ∈ t.rows, live x = true → key x ≠ key r → column x ≠ column r) :
    (t.put r).Identifies live column := by
  intro x hx hl y hy hl' hc
  rcases of_mem_put hx with rfl | ⟨hx', hkx⟩ <;> rcases of_mem_put hy with rfl | ⟨hy', hky⟩
  · rfl
  · exact absurd hc.symm (new hl y hy' hl' hky)
  · exact absurd hc (new hl' x hx' hl hkx)
  · exact h x hx' hl y hy' hl' hc

end Identifies

end Table

end ProjectManagement.Library
