import Mathlib.Data.List.Induction
import Mathlib.Logic.Function.Basic
import Mathlib.Order.Lattice

/-!
Entries with deadlines, dropped when they are looked up too late. As long as the clock does not run backwards, a lookup answers
as if every entry were gone right after its deadline, and no lookup is noticed by another.
-/

namespace ProjectManagement.Library

variable {κ ν δ τ : Type} [DecidableEq κ]

inductive Access (κ ν δ : Type)
  | get (key : κ)
  | set (key : κ) (value : ν) (lifetime : δ)
  | delete (key : κ)
  | clear

def Access.affects (k : κ) : Access κ ν δ → Bool
  | get _ => false
  | set key _ _ => key = k
  | delete key => key = k
  | clear => true

/-- The last access of a history, oldest first, that affects the key. -/
def lastAffecting (k : κ) (history : List (τ × Access κ ν δ)) : Option (τ × Access κ ν δ) :=
  history.reverse.find? (fun e => e.2.affects k)

theorem lastAffecting_append {k : κ} {before after : List (τ × Access κ ν δ)} :
    lastAffecting k (before ++ after) = (lastAffecting k after).or (lastAffecting k before) := by
  rw [lastAffecting, List.reverse_append, List.find?_append]
  rfl

theorem lastAffecting_snoc {k : κ} {history : List (τ × Access κ ν δ)} {e : τ × Access κ ν δ} :
    lastAffecting k (history ++ [e]) = if e.2.affects k then some e else lastAffecting k history := by
  rw [lastAffecting_append]
  cases h : e.2.affects k <;> simp [lastAffecting, h]

theorem lastAffecting_get {k key : κ} {t : τ} {before after : List (τ × Access κ ν δ)} :
    lastAffecting k (before ++ (t, .get key) :: after) = lastAffecting k (before ++ after) := by
  rw [List.append_cons, lastAffecting_append, lastAffecting_snoc, lastAffecting_append]
  rfl

theorem of_lastAffecting {k : κ} {history : List (τ × Access κ ν δ)} {e : τ × Access κ ν δ}
    (h : lastAffecting k history = some e) : e ∈ history ∧ e.2.affects k = true := by
  have hfound : history.reverse.find? (fun e => e.2.affects k) = some e := h
  refine ⟨List.mem_reverse.mp (List.mem_of_find?_eq_some hfound), ?_⟩
  rw [List.find?_eq_some_iff_append] at hfound
  exact hfound.1

abbrev Entries (κ ν τ : Type) := κ → Option (ν × Option τ)

/-- What a history has written under a key, deadlines passed or not. -/
def written (deadline : τ → δ → Option τ) (k : κ) (history : List (τ × Access κ ν δ)) : Option (ν × Option τ) :=
  match lastAffecting k history with
  | some (t, .set _ value lifetime) => some (value, deadline t lifetime)
  | _ => none

theorem written_snoc {deadline : τ → δ → Option τ} {k : κ} {history : List (τ × Access κ ν δ)} {e : τ × Access κ ν δ}
    (h : e.2.affects k = false) :
    written deadline k (history ++ [e]) = written deadline k history := by
  rw [written, lastAffecting_snoc, h]
  rfl

section Deadlines

variable [LinearOrder τ] (deadline : τ → δ → Option τ)

def unexpired (now : τ) : Option (ν × Option τ) → Option ν
  | some (value, expires) => if expires.any (· < now) then none else some value
  | none => none

def Entries.get (now : τ) (key : κ) (entries : Entries κ ν τ) : Option ν × Entries κ ν τ :=
  (unexpired now (entries key),
    if (unexpired now (entries key)).isSome then entries else Function.update entries key none)

def Entries.step (now : τ) (entries : Entries κ ν τ) : Access κ ν δ → Entries κ ν τ
  | .get key => (entries.get now key).2
  | .set key value lifetime => Function.update entries key (some (value, deadline now lifetime))
  | .delete key => Function.update entries key none
  | .clear => fun _ => none

def play (history : List (τ × Access κ ν δ)) : Entries κ ν τ :=
  history.foldl (fun entries e => entries.step deadline e.1 e.2) fun _ => none

variable {deadline} {k : κ} {history : List (τ × Access κ ν δ)} {now : τ} {entries : Entries κ ν τ}

theorem unexpired_eq_none_of_le {t : τ} {entry : Option (ν × Option τ)} (hle : t ≤ now) (h : unexpired t entry = none) :
    unexpired now entry = none := by
  cases entry with
  | none => rfl
  | some entry =>
    obtain ⟨value, expires⟩ := entry
    cases expires with
    | none => simp [unexpired] at h
    | some expires =>
      simp only [unexpired, Option.any_some, decide_eq_true_eq, ite_eq_left_iff, reduceCtorEq, imp_false, not_not] at h ⊢
      exact h.trans_le hle

theorem play_snoc {e : τ × Access κ ν δ} :
    play deadline (history ++ [e]) = (play deadline history).step deadline e.1 e.2 := by
  rw [play, List.foldl_append]
  rfl

theorem step_of_not_affects {access : Access κ ν δ} (h : access.affects k = false) :
    entries.step deadline now access k = entries k ∨
      entries.step deadline now access k = none ∧ unexpired now (entries k) = none := by
  cases access with
  | get key =>
    simp only [Entries.step, Entries.get]
    split
    · exact Or.inl rfl
    · next hnone =>
      by_cases hk : k = key
      · subst hk
        exact Or.inr ⟨Function.update_self _ _ _, by simpa using hnone⟩
      · exact Or.inl (Function.update_of_ne hk _ _)
  | set key value lifetime =>
    have hk : k ≠ key := fun hk => by simp [Access.affects, hk] at h
    exact Or.inl (Function.update_of_ne hk _ _)
  | delete key =>
    have hk : k ≠ key := fun hk => by simp [Access.affects, hk] at h
    exact Or.inl (Function.update_of_ne hk _ _)
  | clear => simp [Access.affects] at h

theorem step_of_affects {access : Access κ ν δ} (h : access.affects k = true) :
    entries.step deadline now access k = written deadline k (history ++ [(now, access)]) := by
  rw [written, lastAffecting_snoc, if_pos h]
  cases access with
  | get key => simp [Access.affects] at h
  | set key value lifetime =>
    obtain rfl : key = k := by simpa [Access.affects] using h
    exact Function.update_self _ _ _
  | delete key =>
    obtain rfl : key = k := by simpa [Access.affects] using h
    exact Function.update_self _ _ _
  | clear => rfl

/-- The entries are what the history has written, less some that had expired when they were looked up. -/
theorem play_cases (k : κ) (history : List (τ × Access κ ν δ)) : play deadline history k = written deadline k history ∨
    play deadline history k = none ∧ ∃ e ∈ history, unexpired e.1 (written deadline k history) = none := by
  induction history using List.reverseRecOn with
  | nil => exact Or.inl rfl
  | append_singleton history e ih =>
    rw [play_snoc]
    cases haffects : e.2.affects k with
    | true => exact Or.inl (step_of_affects haffects)
    | false =>
      rw [written_snoc haffects]
      have hmem : e ∈ history ++ [e] := by simp
      have hstep : (play deadline history).step deadline e.1 e.2 k = play deadline history k ∨ _ := step_of_not_affects haffects
      rcases hstep with hkept | ⟨hgone, hexpired⟩
      · rw [hkept]
        rcases ih with h | ⟨h, e', he', hlate⟩
        · exact Or.inl h
        · exact Or.inr ⟨h, e', List.mem_append_left _ he', hlate⟩
      · rcases ih with h | ⟨h, e', he', hlate⟩
        · exact Or.inr ⟨hgone, e, hmem, by rwa [← h]⟩
        · exact Or.inr ⟨hgone, e', List.mem_append_left _ he', hlate⟩

/-- A lookup answers with what the history has written, if its deadline has not passed. -/
theorem get_play (clock : ∀ e ∈ history, e.1 ≤ now) :
    ((play deadline history).get now k).1 = unexpired now (written deadline k history) := by
  have hcases : play deadline history k = written deadline k history ∨ _ := play_cases k history
  rcases hcases with h | ⟨h, e, he, hlate⟩
  · rw [Entries.get, h]
  · rw [Entries.get, h, unexpired_eq_none_of_le (clock e he) hlate]
    rfl

end Deadlines

end ProjectManagement.Library
