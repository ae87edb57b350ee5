import Mathlib.Data.List.Induction
import Mathlib.Data.List.Sort
import Mathlib.Order.Defs.LinearOrder

/-!
Boards. A column keeps its cards in the order of their positions; a card is placed in one column, at a position or behind
the last card, or taken off. Cards that are only ever placed behind the last one stand in the order of their arrival.
-/

namespace ProjectManagement.Library

/-- What breaks the tie between two cards at one position. -/
class Ranked (κ : Type) where
  rank : κ → ℕ
  injective : ∀ j k, rank j = rank k → j = k

structure Card (α κ : Type) where
  position : α
  task : κ

variable {γ κ α : Type} [Ranked κ] [LinearOrder α]

namespace Card

def Before (a b : Card α κ) : Prop :=
  a.position < b.position ∨ a.position = b.position ∧ Ranked.rank a.task < Ranked.rank b.task

instance : DecidableRel (Before : Card α κ → Card α κ → Prop) := fun _ _ => inferInstanceAs (Decidable (_ ∨ _))

instance : IsTrans (Card α κ) Before where
  trans a b c hab hbc := by
    rcases hab with hab | ⟨hab, hrank⟩
    · rcases hbc with hbc | ⟨hbc, -⟩
      · exact Or.inl (hab.trans hbc)
      · exact Or.inl (hbc ▸ hab)
    · rcases hbc with hbc | ⟨hbc, hrank'⟩
      · exact Or.inl (hab ▸ hbc)
      · exact Or.inr ⟨hab.trans hbc, hrank.trans hrank'⟩

instance : Std.Irrefl (Before : Card α κ → Card α κ → Prop) where
  irrefl a h := by
    rcases h with h | ⟨-, h⟩
    · exact lt_irrefl _ h
    · exact Nat.lt_irrefl _ h

theorem before_or {a b : Card α κ} (h : a.task ≠ b.task) : a.Before b ∨ b.Before a := by
  rcases lt_trichotomy a.position b.position with hlt | heq | hgt
  · exact Or.inl (Or.inl hlt)
  · rcases Nat.lt_or_gt_of_ne fun hrank => h (Ranked.injective _ _ hrank) with hlt | hgt
    · exact Or.inl (Or.inr ⟨heq, hlt⟩)
    · exact Or.inr (Or.inr ⟨heq.symm, hgt⟩)
  · exact Or.inr (Or.inl hgt)

end Card

structure Column (α κ : Type) [Ranked κ] [LinearOrder α] where
  cards : List (Card α κ)
  sorted : cards.Pairwise Card.Before

namespace Column

variable {c c' : Column α κ} {k : κ} {x : α} {a : Card α κ}

theorem ext_mem (h : ∀ a, a ∈ c.cards ↔ a ∈ c'.cards) : c = c' := by
  have : Std.Antisymm (Card.Before : Card α κ → Card α κ → Prop) :=
    ⟨fun a b hab hba => absurd (trans_of Card.Before hab hba) (irrefl_of Card.Before a)⟩
  have hcards : c.cards = c'.cards := c.sorted.eq_of_mem_iff c'.sorted h
  obtain ⟨cards, sorted⟩ := c
  obtain ⟨cards', sorted'⟩ := c'
  obtain rfl : cards = cards' := hcards
  rfl

def empty : Column α κ := ⟨[], .nil⟩

def tasks (c : Column α κ) : List κ := c.cards.map Card.task

def last (c : Column α κ) : Option α := c.cards.getLast?.map Card.position

theorem position_le_last (h : a ∈ c.cards) : ∃ y, c.last = some y ∧ a.position ≤ y := by
  have hne : c.cards ≠ [] := List.ne_nil_of_mem h
  refine ⟨(c.cards.getLast hne).position, by rw [last, List.getLast?_eq_getLast_of_ne_nil hne]; rfl, ?_⟩
  have sorted := c.sorted
  rw [← List.dropLast_append_getLast hne] at h sorted
  rcases List.mem_append.mp h with h | h
  · rcases (List.pairwise_append.mp sorted).2.2 a h _ (List.mem_singleton_self _) with hlt | ⟨heq, -⟩
    · exact hlt.le
    · exact heq.le
  · rw [List.mem_singleton.mp h]

variable [DecidableEq κ]

def without (k : κ) (c : Column α κ) : Column α κ := ⟨c.cards.filter fun a => a.task ≠ k, c.sorted.filter _⟩

theorem mem_without : a ∈ (c.without k).cards ↔ a ∈ c.cards ∧ a.task ≠ k := by simp [without]

theorem sorted_around (x : α) (k : κ) (c : Column α κ) : ((c.without k).cards.filter (fun a => a.Before ⟨x, k⟩) ++
    ⟨x, k⟩ :: (c.without k).cards.filter fun a => ¬a.Before ⟨x, k⟩).Pairwise Card.Before := by
  have hlater : ∀ a ∈ (c.without k).cards.filter (fun a => ¬a.Before ⟨x, k⟩), Card.Before ⟨x, k⟩ a := by
    intro a ha
    obtain ⟨ha, hnot⟩ := List.mem_filter.mp ha
    have hor : a.Before ⟨x, k⟩ ∨ Card.Before ⟨x, k⟩ a := Card.before_or (mem_without.mp ha).2
    exact hor.resolve_left (by simpa using hnot)
  apply List.pairwise_append.mpr
  refine ⟨(c.without k).sorted.filter _, List.pairwise_cons.mpr ⟨hlater, (c.without k).sorted.filter _⟩, ?_⟩
  intro a ha b hb
  have hbefore : a.Before ⟨x, k⟩ := by simpa using (List.mem_filter.mp ha).2
  rcases List.mem_cons.mp hb with rfl | hb
  · exact hbefore
  · exact trans_of Card.Before hbefore (hlater b hb)

/-- The card goes in front of the first card it stands before. -/
def place (x : α) (k : κ) (c : Column α κ) : Column α κ := ⟨_, sorted_around x k c⟩

theorem cards_place : (c.place x k).cards = (c.without k).cards.filter (fun a => a.Before ⟨x, k⟩) ++
    ⟨x, k⟩ :: (c.without k).cards.filter fun a => ¬a.Before ⟨x, k⟩ := rfl

theorem mem_place : a ∈ (c.place x k).cards ↔ a = ⟨x, k⟩ ∨ a ∈ c.cards ∧ a.task ≠ k := by
  rw [← mem_without, cards_place, List.mem_append, List.mem_cons, List.mem_filter, List.mem_filter]
  by_cases h : a.Before ⟨x, k⟩
  · simp [h]
    tauto
  · simp [h]

/-- Behind the last card. -/
theorem place_beyond (h : ∀ y, c.last = some y → y < x) : (c.place x k).cards = (c.without k).cards ++ [⟨x, k⟩] := by
  have hbefore : ∀ a ∈ (c.without k).cards, a.Before ⟨x, k⟩ := by
    intro a ha
    obtain ⟨y, hlast, hle⟩ := position_le_last (mem_without.mp ha).1
    exact Or.inl (hle.trans_lt (h y hlast))
  have hall : (c.without k).cards.filter (fun a => a.Before ⟨x, k⟩) = (c.without k).cards :=
    List.filter_eq_self.mpr fun a ha => by simpa using hbefore a ha
  have hnone : (c.without k).cards.filter (fun a => ¬a.Before ⟨x, k⟩) = [] :=
    List.filter_eq_nil_iff.mpr fun a ha => by simpa using hbefore a ha
  rw [cards_place, hall, hnone]

theorem tasks_without : (c.without k).tasks = c.tasks.filter (· ≠ k) := by
  rw [tasks, tasks, List.filter_map]
  rfl

end Column

inductive BoardMove (γ κ α : Type)
  | idle
  | placed (task : κ) (column : γ) (position : Option α)
  | removed (task : κ)

namespace BoardMove

variable [DecidableEq γ] [DecidableEq κ] {behind : Option α → α} {m : BoardMove γ κ α} {log : List (BoardMove γ κ α)} {b : γ → Column α κ}

def apply (behind : Option α → α) : BoardMove γ κ α → (γ → Column α κ) → γ → Column α κ
  | idle, b, c => b c
  | placed k column position, b, c =>
    if c = column then (b c).place (position.getD (behind (b c).last)) k else (b c).without k
  | removed k, b, c => (b c).without k

def positioned : BoardMove γ κ α → Bool
  | placed _ _ (some _) => true
  | _ => false

/-- The card, and the column it has come to, if any. -/
def arrival : BoardMove γ κ α → Option (κ × Option γ)
  | idle => none
  | placed k c _ => some (k, some c)
  | removed k => some (k, none)

theorem apply_of_arrival_none (h : m.arrival = none) : m.apply behind b = b := by
  cases m with
  | idle => rfl
  | placed k column position => exact absurd h (by simp [arrival])
  | removed k => exact absurd h (by simp [arrival])

theorem tasks_apply {k : κ} {column : Option γ} (hbehind : ∀ y, y < behind (some y)) (h : m.positioned = false)
    (harrival : m.arrival = some (k, column)) (c : γ) :
    (m.apply behind b c).tasks = (b c).tasks.filter (· ≠ k) ++ if column = some c then [k] else [] := by
  cases m with
  | idle => exact absurd harrival (by simp [arrival])
  | removed j =>
    obtain ⟨rfl, rfl⟩ := Prod.mk.inj (Option.some.inj harrival)
    exact Column.tasks_without.trans (List.append_nil _).symm
  | placed j target position =>
    obtain ⟨rfl, rfl⟩ := Prod.mk.inj (Option.some.inj harrival)
    cases position with
    | some x => exact absurd h (by simp [positioned])
    | none =>
      by_cases hc : c = target
      · subst hc
        have hplace := Column.place_beyond (c := b c) (k := j) (x := behind (b c).last) fun y hy => hy ▸ hbehind y
        simp only [apply, if_true, Option.getD_none]
        rw [Column.tasks, hplace, List.map_append, ← Column.tasks_without]
        rfl
      · simp only [apply, if_neg hc, Option.some.injEq, if_neg (Ne.symm hc), List.append_nil]
        exact Column.tasks_without

end BoardMove

section Latest

variable {κ β : Type} [DecidableEq κ]

/-- The last entry about each key. -/
def latest : List (κ × β) → List (κ × β)
  | [] => []
  | a :: l => if a.1 ∈ l.map Prod.fst then latest l else a :: latest l

theorem latest_append_singleton (l : List (κ × β)) (a : κ × β) : latest (l ++ [a]) = (latest l).filter (fun x => x.1 ≠ a.1) ++ [a] := by
  induction l with
  | nil => rfl
  | cons b l ih =>
    have hcons : b.1 ∈ (l ++ [a]).map Prod.fst ↔ b.1 ∈ l.map Prod.fst ∨ b.1 = a.1 := by simp
    rw [List.cons_append, latest, latest, ih]
    by_cases hmem : b.1 ∈ l.map Prod.fst
    · rw [if_pos (hcons.mpr (Or.inl hmem)), if_pos hmem]
    · by_cases hkey : b.1 = a.1
      · rw [if_pos (hcons.mpr (Or.inr hkey)), if_neg hmem, List.filter_cons_of_neg (by simp [hkey])]
      · have hneither : ¬b.1 ∈ (l ++ [a]).map Prod.fst := fun h => (hcons.mp h).elim hmem hkey
        rw [if_neg hneither, if_neg hmem, List.filter_cons_of_pos (by simp [hkey])]
        rfl

end Latest

/-- Where no move names a position, a column shows its cards in the order of their last arrival. -/
theorem BoardMove.tasks_foldl [DecidableEq γ] [DecidableEq κ] {behind : Option α → α} (hbehind : ∀ y, y < behind (some y))
    {log : List (BoardMove γ κ α)}
    (h : ∀ m ∈ log, m.positioned = false) (c : γ) :
    (log.foldl (fun b m => m.apply behind b) (fun _ => Column.empty) c).tasks =
      ((latest (log.filterMap BoardMove.arrival)).filter fun a => a.2 = some c).map Prod.fst := by
  induction log using List.reverseRecOn with
  | nil => rfl
  | append_singleton log m ih =>
    have hlog := ih fun m' hm' => h m' (List.mem_append_left _ hm')
    rw [List.foldl_append, List.foldl_cons, List.foldl_nil, List.filterMap_append]
    cases harrival : m.arrival with
    | none => rw [apply_of_arrival_none harrival, hlog, List.filterMap_cons_none harrival, List.filterMap_nil, List.append_nil]
    | some a =>
      obtain ⟨k, column⟩ := a
      rw [tasks_apply hbehind (h m (by simp)) harrival, hlog, List.filterMap_cons_some harrival, List.filterMap_nil,
        latest_append_singleton, List.filter_append, List.map_append, List.filter_map, List.filter_filter, List.filter_filter]
      congr 1
      · simp only [Function.comp_apply, Bool.and_comm]
      · by_cases hc : column = some c
        · simp [hc]
        · simp [hc]

end ProjectManagement.Library
