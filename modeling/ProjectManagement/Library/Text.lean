import Mathlib.Data.List.Basic

/-! Splitting a text at a separator, and replacing a piece of text in it. -/

namespace ProjectManagement.Library

variable {α : Type}

theorem prefix_append_cons {c : α} {w xs ys : List α} (hc : c ∉ w) : w <+: xs ++ c :: ys ↔ w <+: xs := by
  refine ⟨fun h => ?_, fun h => h.trans (List.prefix_append _ _)⟩
  rcases Nat.le_total w.length xs.length with hle | hle
  · exact List.prefix_of_prefix_length_le h (List.prefix_append _ _) hle
  · obtain ⟨t, rfl⟩ := List.prefix_of_prefix_length_le (List.prefix_append _ _) h hle
    cases t with
    | nil => simp
    | cons x t =>
      rw [List.prefix_append_right_inj, List.cons_prefix_cons] at h
      simp [h.1] at hc

theorem intercalate_cons (c : α) (p : List α) (pieces : List (List α)) :
    [c].intercalate (p :: pieces) = p ++ pieces.flatMap (c :: ·) := by
  induction pieces generalizing p with
  | nil => simp
  | cons q pieces ih => rw [List.intercalate_cons_cons, ih, List.flatMap_cons, List.append_assoc, List.singleton_append, List.cons_append]

variable [DecidableEq α]

theorem not_mem_of_mem_splitOn {a : α} {xs piece : List α} (h : piece ∈ xs.splitOn a) : a ∉ piece := by
  induction xs generalizing piece with
  | nil =>
    rw [List.splitOn_nil, List.mem_singleton] at h
    simp [h]
  | cons x xs ih =>
    rw [List.splitOn_cons_eq_if_modifyHead] at h
    split at h
    · rcases List.mem_cons.mp h with rfl | h
      · simp
      · exact ih h
    · next hx =>
      obtain ⟨first, rest, hsplit⟩ := List.exists_cons_of_ne_nil (List.splitOn_ne_nil a xs)
      rw [hsplit, List.modifyHead_cons] at h
      rcases List.mem_cons.mp h with rfl | h
      · have hfirst : a ∉ first := ih (by simp [hsplit])
        have hne : a ≠ x := fun he => hx (by simp [he])
        simp [hne, hfirst]
      · exact ih (by simp [hsplit, h])

/-- The leftmost occurrence only; `old` is not empty. -/
def replaceFirst (old new : List α) : List α → List α
  | [] => []
  | x :: xs =>
    if old.isPrefixOf (x :: xs) then new ++ xs.drop (old.length - 1) else x :: replaceFirst old new xs

/-- All occurrences, from the left and without overlaps; `old` is not empty. -/
def replaceAll (old new : List α) : List α → List α
  | [] => []
  | x :: xs =>
    if old.isPrefixOf (x :: xs) then new ++ replaceAll old new (xs.drop (old.length - 1))
    else x :: replaceAll old new xs
termination_by xs => xs.length
decreasing_by
  all_goals simp only [List.length_cons, List.length_drop]
  all_goals omega

section Replace

variable {d c : α} {o new w xs ys : List α}

@[simp] theorem replaceAll_nil : replaceAll o new ([] : List α) = [] := by rw [replaceAll]

theorem replaceAll_found : replaceAll (d :: o) new (d :: o ++ xs) = new ++ replaceAll (d :: o) new xs := by
  have hstart : (d :: o).isPrefixOf (d :: (o ++ xs)) = true :=
    List.isPrefixOf_iff_prefix.mpr (List.prefix_append (d :: o) xs)
  rw [List.cons_append, replaceAll, if_pos hstart, List.length_cons, Nat.add_sub_cancel, List.drop_left]

theorem replaceAll_cons {x : α} (h : ¬d :: o <+: x :: xs) : replaceAll (d :: o) new (x :: xs) = x :: replaceAll (d :: o) new xs := by
  rw [replaceAll, if_neg]
  exact fun hp => h (List.isPrefixOf_iff_prefix.mp hp)

theorem replaceAll_append (hd : d ∉ xs) : replaceAll (d :: o) new (xs ++ ys) = xs ++ replaceAll (d :: o) new ys := by
  induction xs with
  | nil => rfl
  | cons x xs ih =>
    simp only [List.mem_cons, not_or] at hd
    rw [List.cons_append, replaceAll_cons, ih hd.2, List.cons_append]
    rw [List.cons_prefix_cons]
    exact fun h => hd.1 h.1

theorem replaceAll_of_not_mem (hd : d ∉ xs) : replaceAll (d :: o) new xs = xs := by
  have h : replaceAll (d :: o) new (xs ++ []) = xs ++ replaceAll (d :: o) new [] := replaceAll_append hd
  simpa using h

/-- Induction along the replacement: an occurrence is skipped as a whole, anything else character by character. -/
theorem replaceAll_induction {P : List α → List α → Prop} (nil : P [] [])
    (found : ∀ rest, P rest (replaceAll (d :: o) new rest) → P (d :: o ++ rest) (new ++ replaceAll (d :: o) new rest))
    (kept : ∀ x rest, ¬d :: o <+: x :: rest → P rest (replaceAll (d :: o) new rest) →
      P (x :: rest) (x :: replaceAll (d :: o) new rest)) (xs : List α) : P xs (replaceAll (d :: o) new xs) := by
  induction hn : xs.length using Nat.strongRecOn generalizing xs with
  | _ n ih =>
    cases xs with
    | nil =>
      rw [replaceAll_nil]
      exact nil
    | cons x xs =>
      by_cases h : d :: o <+: x :: xs
      · obtain ⟨rest, hrest⟩ := h
        rw [← hrest, replaceAll_found]
        have hshort : rest.length < n := by
          rw [← hn, ← hrest]
          simp only [List.length_append, List.length_cons]
          omega
        exact found rest (ih rest.length hshort rest rfl)
      · rw [replaceAll_cons h]
        exact kept x xs h (ih xs.length (by rw [← hn]; simp) xs rfl)

theorem replaceAll_append_cons (hc : c ∉ d :: o) :
    replaceAll (d :: o) new (xs ++ c :: ys) = replaceAll (d :: o) new xs ++ c :: replaceAll (d :: o) new ys := by
  refine replaceAll_induction (P := fun xs out => replaceAll (d :: o) new (xs ++ c :: ys) = out ++ c :: replaceAll (d :: o) new ys)
    ?_ ?_ ?_ xs
  · rw [List.nil_append, List.nil_append, replaceAll_cons]
    rw [List.cons_prefix_cons]
    rintro ⟨rfl, -⟩
    exact hc List.mem_cons_self
  · intro rest ih
    rw [List.append_assoc, replaceAll_found, ih, List.append_assoc]
  · intro x rest h ih
    have hcross : ¬d :: o <+: x :: (rest ++ c :: ys) := fun hp => h ((prefix_append_cons hc).mp hp)
    rw [List.cons_append, replaceAll_cons hcross, ih, List.cons_append]

theorem mem_replaceAll {x : α} (h : x ∈ replaceAll (d :: o) new xs) : x ∈ new ∨ x ∈ xs := by
  revert h
  refine replaceAll_induction (P := fun xs ys => x ∈ ys → x ∈ new ∨ x ∈ xs) (by simp) ?_ ?_ xs
  · intro rest ih h
    rcases List.mem_append.mp h with h | h
    · exact Or.inl h
    · exact (ih h).imp_right (List.mem_append_right _)
  · intro y rest _ ih h
    rcases List.mem_cons.mp h with rfl | h
    · exact Or.inr List.mem_cons_self
    · exact (ih h).imp_right (List.mem_cons_of_mem _)

theorem not_mem_replaceAll (hnew : c ∉ new) (h : c ∉ xs) : c ∉ replaceAll (d :: o) new xs := by
  intro hmem
  rcases mem_replaceAll hmem with hc | hc
  · exact hnew hc
  · exact h hc

theorem length_replaceAll_le (hnew : new.length ≤ o.length) : (replaceAll (d :: o) new xs).length ≤ xs.length := by
  refine replaceAll_induction (P := fun xs ys => ys.length ≤ xs.length) (Nat.le_refl _) ?_ ?_ xs
  · intro rest ih
    simp only [List.length_append, List.length_cons]
    omega
  · intro x rest _ ih
    simpa using ih

theorem replaceAll_eq_self_iff (hnew : new.length ≤ o.length) : replaceAll (d :: o) new xs = xs ↔ ¬d :: o <:+: xs := by
  induction xs with
  | nil => simp
  | cons x xs ih =>
    rw [List.infix_cons_iff, not_or]
    by_cases hp : d :: o <+: x :: xs
    · refine ⟨fun h => absurd (congrArg List.length h) ?_, fun h => absurd hp h.1⟩
      obtain ⟨rest, hrest⟩ := hp
      have hlength : (replaceAll (d :: o) new rest).length ≤ rest.length := length_replaceAll_le hnew
      rw [← hrest, replaceAll_found]
      simp only [List.length_append, List.length_cons]
      omega
    · rw [replaceAll_cons hp, List.cons.injEq, ih]
      simp [hp]

theorem prefix_replaceAll_iff (hd : d ∉ w) : w <+: replaceAll (d :: o) (d :: new) xs ↔ w <+: xs := by
  induction w generalizing xs with
  | nil => simp
  | cons y w ih =>
    simp only [List.mem_cons, not_or] at hd
    cases xs with
    | nil => simp
    | cons x xs =>
      by_cases hp : d :: o <+: x :: xs
      · obtain ⟨rest, hrest⟩ := hp
        rw [← hrest, replaceAll_found, List.cons_append, List.cons_append, List.cons_prefix_cons, List.cons_prefix_cons]
        simp [Ne.symm hd.1]
      · rw [replaceAll_cons hp, List.cons_prefix_cons, List.cons_prefix_cons, ih hd.2]

theorem replaceAll_flatMap {n : List α} {pieces : List (List α)} (ho : d ∉ o) (hp : ∀ p ∈ pieces, d ∉ p) :
    replaceAll (d :: o) (d :: n) (pieces.flatMap (d :: ·)) =
      pieces.flatMap fun p => d :: if o.isPrefixOf p then n ++ p.drop o.length else p := by
  induction pieces with
  | nil => simp
  | cons p pieces ih =>
    simp only [List.mem_cons, forall_eq_or_imp] at hp
    have hnext : o <+: p ++ pieces.flatMap (d :: ·) ↔ o <+: p := by
      cases pieces with
      | nil => simp
      | cons q pieces =>
        rw [List.flatMap_cons, List.cons_append]
        exact prefix_append_cons ho
    rw [List.flatMap_cons, List.flatMap_cons, List.cons_append]
    by_cases h : o <+: p
    · obtain ⟨rest, rfl⟩ := h
      have hrest : d ∉ rest := fun hr => hp.1 (List.mem_append_right _ hr)
      have hstart : o.isPrefixOf (o ++ rest) = true := List.isPrefixOf_iff_prefix.mpr (List.prefix_append _ _)
      rw [if_pos hstart, List.drop_left, List.append_assoc, ← List.cons_append, replaceAll_found, replaceAll_append hrest,
        ih hp.2]
      simp
    · have hstart : o.isPrefixOf p = false := by
        rw [Bool.eq_false_iff]
        exact fun hp => h (List.isPrefixOf_iff_prefix.mp hp)
      rw [replaceAll_cons, replaceAll_append hp.1, ih hp.2, hstart]
      · simp
      · rw [List.cons_prefix_cons, hnext]
        exact fun hcons => h hcons.2

theorem replaceAll_append_flatMap {pieces : List (List α)} (hc : c ∉ d :: o) :
    replaceAll (d :: o) new (xs ++ pieces.flatMap (c :: ·)) =
      replaceAll (d :: o) new xs ++ (pieces.map (replaceAll (d :: o) new)).flatMap (c :: ·) := by
  induction pieces generalizing xs with
  | nil => simp
  | cons p pieces ih =>
    rw [List.flatMap_cons, List.cons_append, replaceAll_append_cons hc, ih, List.map_cons, List.flatMap_cons, List.cons_append]

theorem replaceFirst_found : replaceFirst (d :: o) new (d :: o ++ xs) = new ++ xs := by
  have hstart : (d :: o).isPrefixOf (d :: (o ++ xs)) = true :=
    List.isPrefixOf_iff_prefix.mpr (List.prefix_append (d :: o) xs)
  rw [List.cons_append, replaceFirst, if_pos hstart, List.length_cons, Nat.add_sub_cancel, List.drop_left]

end Replace

end ProjectManagement.Library
