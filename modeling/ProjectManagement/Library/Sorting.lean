import ProjectManagement.Library.Paging
import Mathlib.Data.List.Sort

/-!
Rows sorted by a preorder: a part of a sorted list is that part sorted, and a sorted list is its groups in a row exactly when
the order puts the groups in that row.
-/

namespace ProjectManagement.Library

variable {ρ : Type} {le : ρ → ρ → Bool}

theorem TotalPreorder.pairwise_insertionSort (h : TotalPreorder le) (rows : List ρ) :
    (rows.insertionSort (fun a b => le a b = true)).Pairwise (fun a b => le a b = true) := by
  have : Std.Total fun a b => le a b = true := ⟨h.total⟩
  have : IsTrans ρ fun a b => le a b = true := ⟨h.trans⟩
  exact List.pairwise_insertionSort _ _

theorem filter_orderedInsert_of_neg {p : ρ → Bool} {a : ρ} (ha : p a = false) (rows : List ρ) :
    (rows.orderedInsert (fun a b => le a b = true) a).filter p = rows.filter p := by
  induction rows with
  | nil => simp [ha]
  | cons b rows ih =>
    rw [List.orderedInsert_cons]
    split
    · simp [List.filter_cons, ha]
    · simp only [List.filter_cons, ih]

theorem TotalPreorder.filter_orderedInsert_of_pos (h : TotalPreorder le) {p : ρ → Bool} {a : ρ} (ha : p a = true)
    {rows : List ρ} (sorted : rows.Pairwise (fun a b => le a b = true)) :
    (rows.orderedInsert (fun a b => le a b = true) a).filter p =
      (rows.filter p).orderedInsert (fun a b => le a b = true) a := by
  induction rows with
  | nil => simp [ha]
  | cons b rows ih =>
    obtain ⟨hb, sorted⟩ := List.pairwise_cons.mp sorted
    rw [List.orderedInsert_cons]
    by_cases hab : le a b = true
    · rw [if_pos hab, List.filter_cons_of_pos ha]
      -- every row kept is `b` or comes after it, so `a` goes before the first of them
      cases hkept : (b :: rows).filter p with
      | nil => rfl
      | cons c kept =>
        have hc : c ∈ b :: rows := List.mem_of_mem_filter (hkept ▸ List.mem_cons_self)
        have hac : le a c = true := by
          rcases List.mem_cons.mp hc with rfl | hc
          · exact hab
          · exact h.trans a b c hab (hb c hc)
        rw [List.orderedInsert_cons, if_pos hac]
    · rw [if_neg hab]
      cases hpb : p b with
      | true => rw [List.filter_cons_of_pos hpb, List.filter_cons_of_pos hpb, List.orderedInsert_cons, if_neg hab, ih sorted]
      | false => rw [List.filter_cons_of_neg (by simp [hpb]), List.filter_cons_of_neg (by simp [hpb]), ih sorted]

theorem TotalPreorder.filter_insertionSort (h : TotalPreorder le) (p : ρ → Bool) (rows : List ρ) :
    (rows.insertionSort (fun a b => le a b = true)).filter p = (rows.filter p).insertionSort (fun a b => le a b = true) := by
  induction rows with
  | nil => rfl
  | cons a rows ih =>
    cases ha : p a with
    | true =>
      rw [List.filter_cons_of_pos ha, List.insertionSort_cons, List.insertionSort_cons,
        h.filter_orderedInsert_of_pos ha (h.pairwise_insertionSort rows), ih]
    | false =>
      rw [List.filter_cons_of_neg (by simp [ha]), List.insertionSort_cons, filter_orderedInsert_of_neg ha, ih]

/-- Two relations that agree on ties: a list sorted by one is sorted by the other exactly when the one implies the other. -/
theorem pairwise_iff_of_sorted {S R : ρ → ρ → Prop} {rows : List ρ} (sorted : rows.Pairwise S) (refl : ∀ a, R a a)
    (ties : ∀ a b, S a b → S b a → R a b) : rows.Pairwise R ↔ ∀ a ∈ rows, ∀ b ∈ rows, S a b → R a b := by
  induction rows with
  | nil => simp
  | cons x rows ih =>
    obtain ⟨hx, sorted⟩ := List.pairwise_cons.mp sorted
    rw [List.pairwise_cons, ih sorted]
    constructor
    · rintro ⟨hfirst, hrest⟩ a ha b hb hab
      rcases List.mem_cons.mp ha with ha | ha <;> rcases List.mem_cons.mp hb with hb | hb
      · rw [ha, hb]
        exact refl x
      · rw [ha]
        exact hfirst b hb
      · rw [hb] at hab ⊢
        exact ties a x hab (hx a ha)
      · exact hrest a ha b hb hab
    · intro h
      constructor
      · exact fun b hb => h x List.mem_cons_self b (List.mem_cons_of_mem _ hb) (hx b hb)
      · exact fun a ha b hb => h a (List.mem_cons_of_mem _ ha) b (List.mem_cons_of_mem _ hb)

theorem map_eq_of_sorted {κ : Type} {S : κ → κ → Prop} {f : ρ → κ} {rows rows' : List ρ}
    (antisymm : ∀ k k', S k k' → S k' k → k = k') (sorted : rows.Pairwise (fun a b => S (f a) (f b)))
    (sorted' : rows'.Pairwise (fun a b => S (f a) (f b))) (perm : rows.Perm rows') : rows.map f = rows'.map f :=
  List.Perm.eq_of_pairwise (fun k k' _ _ => antisymm k k') (List.pairwise_map.mpr sorted) (List.pairwise_map.mpr sorted')
    (perm.map f)

section Groups

variable {κ : Type} [DecidableEq κ] {group : ρ → κ} {rows : List ρ}

theorem eq_filter_append {p : ρ → Bool} (h : rows.Pairwise (fun a b => p b = true → p a = true)) :
    rows = rows.filter p ++ rows.filter (fun r => !p r) := by
  induction rows with
  | nil => rfl
  | cons a rows ih =>
    obtain ⟨ha, hrows⟩ := List.pairwise_cons.mp h
    cases hp : p a with
    | true =>
      rw [List.filter_cons_of_pos hp, List.filter_cons_of_neg (by simp [hp]), List.cons_append, ← ih hrows]
    | false =>
      -- once out of the group, never in it again
      have hnone : rows.filter p = [] := List.filter_eq_nil_iff.mpr fun b hb hpb => by simp [ha b hb hpb] at hp
      have hall : rows.filter (fun r => !p r) = rows :=
        List.filter_eq_self.mpr fun b hb => by simpa using List.filter_eq_nil_iff.mp hnone b hb
      rw [List.filter_cons_of_neg (by simp [hp]), List.filter_cons_of_pos (by simp [hp]), hnone, hall, List.nil_append]

theorem pairwise_groups {keys : List κ} (nodup : keys.Nodup) :
    (keys.flatMap fun k => rows.filter (fun r => group r = k)).Pairwise
      (fun a b => keys.idxOf (group a) ≤ keys.idxOf (group b)) := by
  induction keys with
  | nil => simp
  | cons k keys ih =>
    obtain ⟨hk, nodup⟩ := List.nodup_cons.mp nodup
    rw [List.flatMap_cons, List.pairwise_append]
    have hlate : ∀ b ∈ keys.flatMap fun k => rows.filter (fun r => group r = k), group b ∈ keys := by
      intro b hb
      obtain ⟨k', hk', hb⟩ := List.mem_flatMap.mp hb
      have hgroup : group b = k' := by simpa using (List.mem_filter.mp hb).2
      exact hgroup ▸ hk'
    refine ⟨?_, ?_, ?_⟩
    · apply List.pairwise_of_forall_mem_list
      intro a ha b hb
      have ha : group a = k := by simpa using (List.mem_filter.mp ha).2
      simp [ha]
    · refine (ih nodup).imp_of_mem fun {a b} ha hb hab => ?_
      have ha' : k ≠ group a := fun he => hk (he ▸ hlate a ha)
      have hb' : k ≠ group b := fun he => hk (he ▸ hlate b hb)
      rw [List.idxOf_cons_ne _ ha', List.idxOf_cons_ne _ hb']
      omega
    · intro a ha b hb
      have ha : group a = k := by simpa using (List.mem_filter.mp ha).2
      simp [ha]

theorem eq_flatMap_groups {keys : List κ} (nodup : keys.Nodup) (all : ∀ r ∈ rows, group r ∈ keys) :
    rows = (keys.flatMap fun k => rows.filter (fun r => group r = k)) ↔
      rows.Pairwise (fun a b => keys.idxOf (group a) ≤ keys.idxOf (group b)) := by
  constructor
  · intro h
    rw [h]
    exact pairwise_groups nodup
  · intro h
    induction keys generalizing rows with
    | nil => exact List.eq_nil_iff_forall_not_mem.mpr fun r hr => by simpa using all r hr
    | cons k keys ih =>
      obtain ⟨hk, nodup⟩ := List.nodup_cons.mp nodup
      have hfirst : rows.Pairwise (fun a b => decide (group b = k) = true → decide (group a = k) = true) := by
        refine h.imp fun {a b} hab hb => ?_
        have hb : group b = k := by simpa using hb
        by_contra ha
        have ha : k ≠ group a := fun he => ha (by simp [he])
        rw [hb, List.idxOf_cons_self, List.idxOf_cons_ne _ ha] at hab
        omega
      have hothers : ∀ r ∈ rows.filter (fun r => !decide (group r = k)), group r ∈ keys ∧ k ≠ group r := by
        intro r hr
        obtain ⟨hr, hne⟩ := List.mem_filter.mp hr
        have hne : group r ≠ k := by simpa using hne
        exact ⟨(List.mem_cons.mp (all r hr)).resolve_left hne, hne.symm⟩
      have hsorted : (rows.filter (fun r => !decide (group r = k))).Pairwise (fun a b => keys.idxOf (group a) ≤ keys.idxOf (group b)) := by
        refine (h.filter _).imp_of_mem fun {a b} ha hb hab => ?_
        rw [List.idxOf_cons_ne _ (hothers a ha).2, List.idxOf_cons_ne _ (hothers b hb).2] at hab
        omega
      have hrest := ih nodup (fun r hr => (hothers r hr).1) hsorted
      rw [List.flatMap_cons]
      conv_lhs => rw [eq_filter_append hfirst, hrest]
      congr 1
      rw [List.flatMap_congr]
      intro k' hk'
      rw [List.filter_filter]
      apply List.filter_congr
      intro r _
      have hne : k' ≠ k := fun he => hk (he ▸ hk')
      by_cases hr : group r = k'
      · simp [hr, hne]
      · simp [hr]

end Groups

end ProjectManagement.Library
