import Mathlib.Data.List.Basic
import Mathlib.Logic.Relation

/-! Linked chains: lists whose elements point to their successor by key, the last one to nothing. -/

namespace ProjectManagement.Library

variable {α κ : Type}

def Linked (key : α → κ) (next : α → Option κ) : List α → Prop
  | [] => True
  | [x] => next x = none
  | x :: y :: l => next x = some (key y) ∧ Linked key next (y :: l)

namespace Linked

variable {key : α → κ} {next : α → Option κ} {l : List α} {x y x' : α}

theorem tail (h : Linked key next (x :: l)) : Linked key next l := by
  cases l with
  | nil => trivial
  | cons y l => exact h.2

theorem last (h : Linked key next (l ++ [x])) : next x = none := by
  induction l with
  | nil => exact h
  | cons y l ih => exact ih h.tail

theorem interior (h : Linked key next (l ++ [x])) (hy : y ∈ l) : ∃ z ∈ l ++ [x], next y = some (key z) := by
  induction l with
  | nil => simp at hy
  | cons a l ih =>
    rcases List.mem_cons.mp hy with rfl | hy
    · cases l with
      | nil => exact ⟨x, by simp, h.1⟩
      | cons b l => exact ⟨b, by simp, h.1⟩
    · obtain ⟨z, hz, he⟩ := ih h.tail hy
      exact ⟨z, by simp only [List.cons_append, List.mem_cons]; exact Or.inr hz, he⟩

theorem eq_last (h : Linked key next (l ++ [x])) (hy : y ∈ l ++ [x]) (hn : next y = none) : y = x := by
  rcases List.mem_append.mp hy with hy | hy
  · obtain ⟨z, -, he⟩ := h.interior hy
    rw [hn] at he
    exact absurd he (by simp)
  · exact List.mem_singleton.mp hy

theorem extend (h : Linked key next (l ++ [x])) (hk : key x' = key x) (hx : next x' = some (key y))
    (hy : next y = none) : Linked key next (l ++ [x', y]) := by
  induction l with
  | nil => exact ⟨hx, hy⟩
  | cons a l ih =>
    cases l with
    | nil => exact ⟨h.1.trans (by rw [hk]), hx, hy⟩
    | cons b l => exact ⟨h.1, ih h.2⟩

theorem replaceLast (h : Linked key next (l ++ [x])) (hk : key x' = key x) (hx : next x' = none) :
    Linked key next (l ++ [x']) := by
  induction l with
  | nil => exact hx
  | cons a l ih =>
    cases l with
    | nil => exact ⟨h.1.trans (by rw [hk]), hx⟩
    | cons b l => exact ⟨h.1, ih h.2⟩

theorem map {f : α → α} (h : Linked key next l) (hk : ∀ a, key (f a) = key a) (hn : ∀ a, next (f a) = next a) :
    Linked key next (l.map f) := by
  induction l with
  | nil => trivial
  | cons a l ih =>
    cases l with
    | nil => exact (hn a).trans h
    | cons b l => exact ⟨(hn a).trans (h.1.trans (by rw [hk])), ih h.2⟩

theorem getElem (h : Linked key next l) {i : ℕ} (hi : i < l.length) (hs : i + 1 < l.length) :
    next l[i] = some (key l[i + 1]) := by
  induction l generalizing i with
  | nil => simp at hi
  | cons a l ih =>
    cases l with
    | nil => simp at hs
    | cons b l =>
      cases i with
      | zero => exact h.1
      | succ i => exact ih h.2 (by simpa using hi) (by simpa using hs)

theorem reaches (h : Linked key next (l ++ [x])) (hy : y ∈ l ++ [x]) :
    Relation.ReflTransGen (fun a b => b ∈ l ++ [x] ∧ next a = some (key b)) y x := by
  induction l generalizing y with
  | nil =>
    rw [List.nil_append, List.mem_singleton] at hy
    rw [hy]
  | cons a l ih =>
    have hl : ∀ {z}, z ∈ l ++ [x] →
        Relation.ReflTransGen (fun a' b => b ∈ (a :: l) ++ [x] ∧ next a' = some (key b)) z x := by
      intro z hz
      exact Relation.ReflTransGen.mono (fun _ b hb => ⟨List.mem_cons_of_mem _ hb.1, hb.2⟩) _ _ (ih h.tail hz)
    rcases List.mem_cons.mp hy with rfl | hy
    · cases l with
      | nil => exact .single ⟨by simp, h.1⟩
      | cons b l => exact .head ⟨by simp, h.1⟩ (hl (by simp))
    · exact hl hy

end Linked

end ProjectManagement.Library
