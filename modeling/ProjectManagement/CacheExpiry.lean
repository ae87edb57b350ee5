import ProjectManagement.Infrastructure.Cache
import Mathlib.Tactic.Linarith
import Mathlib.Tactic.NormNum

/-! The cache as a map whose entries live for their `ttl_seconds`. -/

namespace ProjectManagement

open Library

namespace InMemoryCache

theorem get_eq (now : ℚ) (key : String) (store : InMemoryCache) : get now key store = Entries.get now key store := by
  unfold get Entries.get
  split
  · next h =>
    have hsame : Function.update store key none = store := by
      rw [← h]
      exact Function.update_eq_self key store
    simp [h, unexpired, hsame]
  · next value h => simp [h, unexpired]
  · next value expiresAt h =>
    by_cases hlate : expiresAt < now <;> simp [h, unexpired, hlate]

theorem run_eq (history : List (ℚ × CacheOp)) : run history = play expiresAt history := by
  have hperform : ∀ (store : InMemoryCache) (e : ℚ × CacheOp), perform e.1 store e.2 = Entries.step expiresAt e.1 store e.2 := by
    rintro store ⟨now, op⟩
    cases op with
    | get key => exact congrArg Prod.snd (get_eq now key store)
    | set key value ttlSeconds => rfl
    | delete key => rfl
    | clear => rfl
  simp only [run, play, hperform]
  rfl

def answer (history : List (ℚ × CacheOp)) (now : ℚ) (key : String) : Option String := (get now key (run history)).1

theorem answer_eq {history : List (ℚ × CacheOp)} {now : ℚ} {key : String} (clock : ∀ e ∈ history, e.1 ≤ now) :
    answer history now key = unexpired now (written expiresAt key history) := by
  rw [answer, get_eq, run_eq]
  exact get_play clock

end InMemoryCache

open InMemoryCache

/-- Every `get` answers with the value of the last operation that affected its key, if that was a `set` whose lifetime is not
over, and no `get` changes the answer of a later one. -/
structure TtlMap (history : List (ℚ × CacheOp)) : Prop where
  law : ∀ before now key after, history = before ++ (now, .get key) :: after → ∀ value,
    answer before now key = some value ↔
      ∃ s ttl, lastAffecting key before = some (s, .set key value ttl) ∧ ∀ seconds ∈ ttl, now - s ≤ seconds
  quiet : ∀ before t k between now key after,
    history = before ++ (t, .get k) :: between ++ (now, .get key) :: after →
      answer (before ++ (t, .get k) :: between) now key = answer (before ++ between) now key

/-- A key is looked up some time after a `set` with a lifetime of zero seconds was the last to affect it. -/
def ReadsZero (history : List (ℚ × CacheOp)) : Prop :=
  ∃ before now key after s value, history = before ++ (now, .get key) :: after ∧
    lastAffecting key before = some (s, .set key value (some 0)) ∧ s < now

theorem law_iff {before : List (ℚ × CacheOp)} {now : ℚ} {key : String} (clock : ∀ e ∈ before, e.1 ≤ now) :
    (∀ value, answer before now key = some value ↔
      ∃ s ttl, lastAffecting key before = some (s, .set key value ttl) ∧ ∀ seconds ∈ ttl, now - s ≤ seconds) ↔
    ¬∃ s value, lastAffecting key before = some (s, .set key value (some 0)) ∧ s < now := by
  rw [answer_eq clock, written]
  cases h : lastAffecting key before with
  | none => simp [unexpired]
  | some e =>
    obtain ⟨-, haffects⟩ := of_lastAffecting h
    obtain ⟨s, op⟩ := e
    cases op with
    | get _ => simp [Access.affects] at haffects
    | delete _ => simp [unexpired]
    | clear => simp [unexpired]
    | set key' stored ttl =>
      obtain rfl : key' = key := by simpa [Access.affects] using haffects
      have hlast : ∀ value, (∃ s' ttl', some (s, Access.set key' stored ttl) = some (s', Access.set key' value ttl') ∧
          ∀ seconds ∈ ttl', now - s' ≤ seconds) ↔ stored = value ∧ ∀ seconds ∈ ttl, now - s ≤ seconds := by
        intro value
        constructor
        · rintro ⟨s', ttl', heq, hin⟩
          cases heq
          exact ⟨rfl, hin⟩
        · rintro ⟨rfl, hin⟩
          exact ⟨s, ttl, rfl, hin⟩
      simp only [hlast]
      cases ttl with
      | none => simp [unexpired, expiresAt]
      | some seconds =>
        by_cases hzero : seconds = 0
        · subst hzero
          simp [unexpired, expiresAt]
        · by_cases hlate : s + seconds < now
          · have hover : ¬now - s ≤ seconds := fun hle => by linarith
            simp only [expiresAt, hzero, if_false, unexpired, Option.any_some, hlate, decide_true, if_true, Option.mem_some_iff,
              forall_eq', hover, and_false]
            simp [hzero]
          · have hin : now - s ≤ seconds := by linarith
            simp only [expiresAt, hzero, if_false, unexpired, Option.any_some, hlate, decide_false, Bool.false_eq_true,
              Option.mem_some_iff, forall_eq', hin, and_true]
            simp [hzero]

theorem not_readsZero {history : List (ℚ × CacheOp)}
    (h : ∀ e ∈ history, ∀ key value, e.2 ≠ .set key value (some 0)) : ¬ReadsZero history := by
  rintro ⟨before, now, key, after, s, value, rfl, hlast, -⟩
  exact h _ (List.mem_append_left _ (of_lastAffecting hlast).1) key value rfl

/-- On a clock that does not run backwards the cache is the map of its lifetimes exactly when no lifetime of zero is read late. -/
theorem ttlMap_iff (history : List (ℚ × CacheOp)) (clock : history.Pairwise fun e e' => e.1 ≤ e'.1) :
    TtlMap history ↔ ¬ReadsZero history := by
  have hclock : ∀ before now key after, history = before ++ (now, .get key) :: after → ∀ e ∈ before, e.1 ≤ now := by
    rintro before now key after rfl e he
    exact (List.pairwise_append.mp clock).2.2 e he _ List.mem_cons_self
  constructor
  · rintro h ⟨before, now, key, after, s, value, rfl, hlast, hlate⟩
    exact (law_iff (hclock before now key after rfl)).mp (h.law before now key after rfl) ⟨s, value, hlast, hlate⟩
  · intro h
    constructor
    · intro before now key after heq
      refine (law_iff (hclock before now key after heq)).mpr ?_
      rintro ⟨s, value, hlast, hlate⟩
      exact h ⟨before, now, key, after, s, value, heq, hlast, hlate⟩
    · intro before t k between now key after heq
      have hbefore : ∀ e ∈ before ++ (t, .get k) :: between, e.1 ≤ now := by
        apply hclock _ now key after
        rw [heq, List.append_assoc, List.cons_append]
      have hwithout : ∀ e ∈ before ++ between, e.1 ≤ now := by
        intro e he
        apply hbefore e
        rcases List.mem_append.mp he with he | he
        · exact List.mem_append_left _ he
        · exact List.mem_append_right _ (List.mem_cons_of_mem _ he)
      rw [answer_eq hbefore, answer_eq hwithout, written, written, lastAffecting_get]

theorem ttlMap_iff_sample : TtlMap [(0, .set "k" "v" (some 2)), (2, .get "k"), (3, .get "k")] := by
  exact (ttlMap_iff _ (by decide)).mpr (not_readsZero (by simp))

/-- A value set to live for zero seconds is still there a second later. -/
theorem zero_lifetime_lasts : ¬TtlMap [(0, .set "k" "v" (some 0)), (1, .get "k")] := by
  intro h
  have hanswer := (h.law [(0, .set "k" "v" (some 0))] 1 "k" [] rfl "v").mp (by decide)
  obtain ⟨s, ttl, hlast, hin⟩ := hanswer
  cases hlast
  exact absurd (hin 0 rfl) (by norm_num)

end ProjectManagement
