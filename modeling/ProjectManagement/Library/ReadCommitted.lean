import Mathlib.Data.List.Induction
import Mathlib.Logic.Function.Basic

/-!
Concurrent transactions under READ COMMITTED. A transaction is a program in phases, and every step of a
schedule lets one transaction execute its next statement. A statement sees what is committed and the
transaction's own writes. A write waits while another transaction holds a lock on one of its rows; its
own locks are kept to the end of the transaction.
-/

namespace ProjectManagement.Library

/-- A statement that changes the state, with the rows it locks. -/
structure Write (σ κ : Type) where
  keys : List κ
  run : σ → σ

inductive Action (σ κ π : Type)
  | stop
  | read (next : π)
  | write (w : Write σ κ) (next : π)
  | commit (next : π)
  | rollback (next : π)

def Action.goal {σ κ π : Type} : Action σ κ π → Option π
  | .stop => none
  | .read p => some p
  | .write _ p => some p
  | .commit p => some p
  | .rollback p => some p

/-- `commits` lists the transactions that have committed, in that order. -/
structure Sessions (ι σ κ π : Type) where
  committed : σ
  pending : ι → List (Write σ κ)
  locks : List (ι × κ)
  phase : ι → π
  commits : List ι

namespace Sessions

variable {ι σ κ π : Type}

def start (d : σ) (phase : π) : Sessions ι σ κ π := ⟨d, fun _ => [], [], fun _ => phase, []⟩

def view (s : Sessions ι σ κ π) (i : ι) : σ := (s.pending i).foldl (fun d w => w.run d) s.committed

theorem view_of_pending_nil {s : Sessions ι σ κ π} {i : ι} (h : s.pending i = []) : s.view i = s.committed := by
  simp [view, h]

variable [DecidableEq ι]

def goTo (s : Sessions ι σ κ π) (i : ι) (p : π) : Sessions ι σ κ π :=
  { s with phase := Function.update s.phase i p }

/-- The end of a transaction: its locks go, and what it has not committed. -/
def close (s : Sessions ι σ κ π) (i : ι) (p : π) : Sessions ι σ κ π :=
  { s with
    pending := Function.update s.pending i []
    locks := s.locks.filter fun l => l.1 ≠ i
    phase := Function.update s.phase i p }

@[simp] theorem phase_goTo {s : Sessions ι σ κ π} {i : ι} {p : π} : (s.goTo i p).phase i = p := by simp [goTo]

@[simp] theorem phase_close {s : Sessions ι σ κ π} {i : ι} {p : π} : (s.close i p).phase i = p := by simp [close]

@[simp] theorem pending_close {s : Sessions ι σ κ π} {i : ι} {p : π} : (s.close i p).pending i = [] := by simp [close]

variable [DecidableEq κ]

def blocked (s : Sessions ι σ κ π) (i : ι) (keys : List κ) : Bool :=
  s.locks.any fun l => l.1 ≠ i && keys.contains l.2

def perform (s : Sessions ι σ κ π) (i : ι) : Action σ κ π → Sessions ι σ κ π
  | .stop => s
  | .read p => s.goTo i p
  | .write w p =>
    if s.blocked i w.keys then s
    else { s.goTo i p with
      pending := Function.update s.pending i (s.pending i ++ [w])
      locks := s.locks ++ w.keys.map fun k => (i, k) }
  | .commit p => { s.close i p with committed := s.view i, commits := s.commits ++ [i] }
  | .rollback p => s.close i p

def step (act : ι → π → σ → Action σ κ π) (s : Sessions ι σ κ π) (i : ι) : Sessions ι σ κ π :=
  s.perform i (act i (s.phase i) (s.view i))

def play (act : ι → π → σ → Action σ κ π) (s : Sessions ι σ κ π) (schedule : List ι) : Sessions ι σ κ π :=
  schedule.foldl (step act) s

section Steps

variable {act : ι → π → σ → Action σ κ π} {s : Sessions ι σ κ π} {i j : ι} {p : π} {w : Write σ κ}
  {schedule : List ι}

@[simp] theorem play_nil : s.play act [] = s := rfl

@[simp] theorem play_cons : s.play act (i :: schedule) = (s.step act i).play act schedule := rfl

theorem play_append {more : List ι} : s.play act (schedule ++ more) = (s.play act schedule).play act more :=
  List.foldl_append

theorem perform_blocked (h : s.blocked i w.keys = true) : s.perform i (.write w p) = s := by simp [perform, h]

theorem phase_perform_write (h : s.blocked i w.keys = false) : (s.perform i (.write w p)).phase i = p := by
  simp [perform, h]

theorem pending_perform_write (h : s.blocked i w.keys = false) :
    (s.perform i (.write w p)).pending i = s.pending i ++ [w] := by
  simp [perform, h]

theorem play_invariant {I : Sessions ι σ κ π → Prop} (hstep : ∀ s i, I s → I (s.step act i)) (hs : I s)
    (schedule : List ι) : I (s.play act schedule) := by
  induction schedule generalizing s with
  | nil => exact hs
  | cons i schedule ih => exact ih (hstep s i hs)

theorem phase_perform_ne {a : Action σ κ π} (h : j ≠ i) : (s.perform i a).phase j = s.phase j := by
  cases a with
  | stop => rfl
  | read p => simp [perform, goTo, h]
  | write w p =>
    simp only [perform]
    split
    · rfl
    · simp [goTo, h]
  | commit p => simp [perform, close, h]
  | rollback p => simp [perform, close, h]

theorem pending_perform_ne {a : Action σ κ π} (h : j ≠ i) : (s.perform i a).pending j = s.pending j := by
  cases a with
  | stop => rfl
  | read p => rfl
  | write w p =>
    simp only [perform]
    split
    · rfl
    · simp [h]
  | commit p => simp [perform, close, h]
  | rollback p => simp [perform, close, h]

theorem committed_perform {a : Action σ κ π} (h : ∀ p, a ≠ .commit p) : (s.perform i a).committed = s.committed := by
  cases a with
  | stop => rfl
  | read p => rfl
  | write w p =>
    simp only [perform]
    split <;> rfl
  | commit p => exact absurd rfl (h p)
  | rollback p => rfl

theorem commits_perform {a : Action σ κ π} (h : ∀ p, a ≠ .commit p) : (s.perform i a).commits = s.commits := by
  cases a with
  | stop => rfl
  | read p => rfl
  | write w p =>
    simp only [perform]
    split <;> rfl
  | commit p => exact absurd rfl (h p)
  | rollback p => rfl

theorem phase_perform_self (a : Action σ κ π) :
    (s.perform i a).phase i = s.phase i ∨ a.goal = some ((s.perform i a).phase i) := by
  cases a with
  | stop => exact Or.inl rfl
  | read p => exact Or.inr (by simp [perform, Action.goal])
  | write w p =>
    cases hb : s.blocked i w.keys with
    | true => exact Or.inl (by rw [perform_blocked hb])
    | false => exact Or.inr (by rw [phase_perform_write hb, Action.goal])
  | commit p => exact Or.inr (by simp [perform, close, Action.goal])
  | rollback p => exact Or.inr (by simp [perform, Action.goal])

theorem play_phase_invariant {P : ι → π → Prop}
    (hnext : ∀ i p d q, P i p → (act i p d).goal = some q → P i q) (hs : ∀ i, P i (s.phase i)) (schedule : List ι) :
    ∀ i, P i ((s.play act schedule).phase i) := by
  apply play_invariant (I := fun s => ∀ i, P i (s.phase i)) ?_ hs
  intro s i hs j
  by_cases hj : j = i
  · subst hj
    rcases phase_perform_self (s := s) (i := j) (act j (s.phase j) (s.view j)) with hsame | hgoal
    · rw [step, hsame]
      exact hs j
    · exact hnext j _ _ _ (hs j) hgoal
  · rw [step, phase_perform_ne hj]
    exact hs j

theorem play_phase_of_stop (hstop : ∀ d, act i p d = .stop) (h : s.phase i = p) : (s.play act schedule).phase i = p := by
  apply play_invariant (I := fun s => s.phase i = p) ?_ h
  intro s j hs
  by_cases hij : i = j
  · subst hij
    rw [step, hs, hstop]
    exact hs
  · rw [step, phase_perform_ne hij]
    exact hs

end Steps

/-! Between two commits every transaction runs as if alone. -/

/-- Where a statement other than the commit leads, and with which writes pending. -/
def after (ws : List (Write σ κ)) : Action σ κ π → Option (π × List (Write σ κ))
  | .read p => some (p, ws)
  | .write w p => some (p, ws ++ [w])
  | .rollback p => some (p, [])
  | .commit _ => none
  | .stop => none

/-- From phase `p` with writes `ws` pending, a transaction gets to `q` with `vs` while `d` stays committed. -/
inductive Alone (act : π → σ → Action σ κ π) (d : σ) (p : π) (ws : List (Write σ κ)) : π → List (Write σ κ) → Prop
  | refl : Alone act d p ws p ws
  | step {q r : π} {vs us : List (Write σ κ)} (h : Alone act d p ws q vs)
      (ha : after vs (act q (vs.foldl (fun d w => w.run d) d)) = some (r, us)) : Alone act d p ws r us

section Commits

variable {act : ι → π → σ → Action σ κ π} {s : Sessions ι σ κ π} {i : ι} {schedule : List ι}

theorem commits_step (act : ι → π → σ → Action σ κ π) (s : Sessions ι σ κ π) (i : ι) : (s.step act i).commits = s.commits ∨
    ∃ p, act i (s.phase i) (s.view i) = .commit p ∧ (s.step act i).commits = s.commits ++ [i] := by
  unfold step
  cases ha : act i (s.phase i) (s.view i) with
  | commit p => exact Or.inr ⟨p, rfl, rfl⟩
  | stop => exact Or.inl rfl
  | read p => exact Or.inl rfl
  | write w p => exact Or.inl (commits_perform (by simp))
  | rollback p => exact Or.inl rfl

theorem commits_play (act : ι → π → σ → Action σ κ π) (s : Sessions ι σ κ π) (schedule : List ι) :
    ∃ more, (s.play act schedule).commits = s.commits ++ more := by
  induction schedule generalizing s with
  | nil => exact ⟨[], (List.append_nil _).symm⟩
  | cons i schedule ih =>
    obtain ⟨more, hmore⟩ := ih (s := s.step act i)
    rcases commits_step act s i with hsame | ⟨p, -, hcommit⟩
    · exact ⟨more, by rw [play_cons, hmore, hsame]⟩
    · exact ⟨i :: more, by rw [play_cons, hmore, hcommit, List.append_assoc, List.singleton_append]⟩

theorem commits_append {more : List ι} (h : (s.play act (schedule ++ more)).commits = s.commits) :
    (s.play act schedule).commits = s.commits := by
  obtain ⟨l, hl⟩ := commits_play act s schedule
  rw [play_append] at h
  obtain ⟨l', hl'⟩ := commits_play act (s.play act schedule) more
  rw [hl', hl, List.append_assoc] at h
  have hnil : l ++ l' = [] := List.append_right_eq_self.mp h
  rw [hl, (List.append_eq_nil_iff.mp hnil).1, List.append_nil]

theorem alone_step (h : (s.step act i).commits = s.commits) : (s.step act i).committed = s.committed ∧
    Alone (act i) s.committed (s.phase i) (s.pending i) ((s.step act i).phase i) ((s.step act i).pending i) := by
  unfold step at h ⊢
  cases ha : act i (s.phase i) (s.view i) with
  | stop => exact ⟨rfl, .refl⟩
  | read p =>
    refine ⟨rfl, ?_⟩
    simp only [perform, phase_goTo]
    exact .step .refl (congrArg (after (s.pending i)) ha)
  | write w p =>
    cases hb : s.blocked i w.keys with
    | true =>
      rw [perform_blocked hb]
      exact ⟨rfl, .refl⟩
    | false =>
      rw [phase_perform_write hb, pending_perform_write hb]
      exact ⟨committed_perform (by simp), .step .refl (congrArg (after (s.pending i)) ha)⟩
  | commit p =>
    rw [ha] at h
    simp [perform] at h
  | rollback p =>
    refine ⟨rfl, ?_⟩
    simp only [perform, phase_close, pending_close]
    exact .step .refl (congrArg (after (s.pending i)) ha)

omit [DecidableEq ι] [DecidableEq κ] in
theorem Alone.trans {act : π → σ → Action σ κ π} {d : σ} {p q r : π} {us vs ws : List (Write σ κ)}
    (h : Alone act d p us q vs) (h' : Alone act d q vs r ws) : Alone act d p us r ws := by
  induction h' with
  | refl => exact h
  | step _ ha ih => exact .step ih ha

omit [DecidableEq ι] [DecidableEq κ] in
theorem Alone.invariant {act : π → σ → Action σ κ π} {d : σ} {p q : π} {us vs : List (Write σ κ)}
    {I : π → List (Write σ κ) → Prop}
    (hstep : ∀ p ws q vs, I p ws → after ws (act p (ws.foldl (fun d w => w.run d) d)) = some (q, vs) → I q vs)
    (hp : I p us) (h : Alone act d p us q vs) : I q vs := by
  induction h with
  | refl => exact hp
  | step _ ha ih => exact hstep _ _ _ _ ih ha

omit [DecidableEq ι] [DecidableEq κ] in
/-- An invariant of the way to a commit: every statement on it reads or writes and leads on. -/
theorem Alone.invariant_next {act : π → σ → Action σ κ π} {d : σ} {p q : π} {us vs : List (Write σ κ)}
    {I : π → List (Write σ κ) → Prop}
    (hnext : ∀ p ws, I p ws → (∃ q, act p (ws.foldl (fun d w => w.run d) d) = .read q ∧ I q ws) ∨
      (∃ w q, act p (ws.foldl (fun d w => w.run d) d) = .write w q ∧ I q (ws ++ [w])) ∨
      after ws (act p (ws.foldl (fun d w => w.run d) d)) = none)
    (hp : I p us) (h : Alone act d p us q vs) : I q vs := by
  refine h.invariant (fun p ws q vs hI hstep => ?_) hp
  rcases hnext p ws hI with ⟨x, hx, hq⟩ | ⟨w, x, hx, hq⟩ | hnone
  · rw [hx] at hstep
    obtain ⟨rfl, rfl⟩ := Prod.mk.inj (Option.some.inj hstep)
    exact hq
  · rw [hx] at hstep
    obtain ⟨rfl, rfl⟩ := Prod.mk.inj (Option.some.inj hstep)
    exact hq
  · rw [hnone] at hstep
    exact absurd hstep (by simp)

theorem play_alone (h : (s.play act schedule).commits = s.commits) : (s.play act schedule).committed = s.committed ∧
    ∀ i, Alone (act i) s.committed (s.phase i) (s.pending i) ((s.play act schedule).phase i)
      ((s.play act schedule).pending i) := by
  induction schedule using List.reverseRecOn with
  | nil => exact ⟨rfl, fun i => .refl⟩
  | append_singleton schedule j ih =>
    have hbefore := commits_append h
    obtain ⟨hcommitted, halone⟩ := ih hbefore
    rw [play_append, play_cons, play_nil] at h ⊢
    obtain ⟨hstep, hj⟩ := alone_step (h.trans hbefore.symm)
    refine ⟨hstep.trans hcommitted, fun i => ?_⟩
    by_cases hij : i = j
    · subst hij
      rw [hcommitted] at hj
      exact (halone i).trans hj
    · rw [step, phase_perform_ne hij, pending_perform_ne hij]
      exact halone i

theorem exists_first_commit (h : (s.play act schedule).commits ≠ s.commits) : ∃ before i after p,
    schedule = before ++ i :: after ∧ (s.play act before).commits = s.commits ∧
      act i ((s.play act before).phase i) ((s.play act before).view i) = .commit p := by
  induction schedule using List.reverseRecOn with
  | nil => exact absurd rfl h
  | append_singleton schedule j ih =>
    by_cases hbefore : (s.play act schedule).commits = s.commits
    · rw [play_append, play_cons, play_nil] at h
      rcases commits_step act (s.play act schedule) j with hsame | ⟨p, hp, -⟩
      · exact absurd (hsame.trans hbefore) h
      · exact ⟨schedule, j, [], p, rfl, hbefore, hp⟩
    · obtain ⟨before, i, after, p, rfl, hcommits, hp⟩ := ih hbefore
      exact ⟨before, i, after ++ [j], p, by simp, hcommits, hp⟩

theorem play_of_stop (h : ∀ i d, act i (s.phase i) d = .stop) : s.play act schedule = s := by
  induction schedule with
  | nil => rfl
  | cons i schedule ih =>
    rw [play_cons, step, h]
    exact ih

/-- When all the others have ended, a transaction runs alone up to its commit, which is the last one. -/
theorem play_last {j : ι} (hothers : ∀ i, i ≠ j → ∀ d, act i (s.phase i) d = .stop)
    (hend : ∀ p d q, act j p d = .commit q → ∀ d', act j q d' = .stop) (schedule : List ι) :
    ((s.play act schedule).committed = s.committed ∧
      Alone (act j) s.committed (s.phase j) (s.pending j) ((s.play act schedule).phase j) ((s.play act schedule).pending j)) ∨
    ∃ p ws q, Alone (act j) s.committed (s.phase j) (s.pending j) p ws ∧
      act j p (ws.foldl (fun d w => w.run d) s.committed) = .commit q ∧
      (s.play act schedule).committed = ws.foldl (fun d w => w.run d) s.committed ∧ (s.play act schedule).phase j = q := by
  by_cases hcommits : (s.play act schedule).commits = s.commits
  · obtain ⟨hcommitted, halone⟩ := play_alone hcommits
    exact Or.inl ⟨hcommitted, halone j⟩
  · obtain ⟨before, k, after, q, rfl, hbefore, hq⟩ := exists_first_commit hcommits
    obtain ⟨hcommitted, halone⟩ := play_alone hbefore
    have hstopped : ∀ i, i ≠ j → (s.play act before).phase i = s.phase i := fun i hi =>
      play_phase_of_stop (hothers i hi) rfl
    have hk : k = j := by
      by_contra hne
      rw [hstopped k hne, hothers k hne] at hq
      simp at hq
    subst hk
    rw [view, hcommitted] at hq
    refine Or.inr ⟨_, _, q, halone k, hq, ?_⟩
    -- nothing is left to run after the commit
    have hstep : (s.play act before).step act k = (s.play act before).perform k (.commit q) := by
      rw [step, view, hcommitted, hq]
    have hown : ((s.play act before).perform k (.commit q)).phase k = q := by
      simp only [perform]
      exact phase_close
    rw [play_append, play_cons, hstep, play_of_stop]
    · exact ⟨by rw [perform, view, hcommitted], hown⟩
    · intro i d
      by_cases hi : i = k
      · rw [hi, hown]
        exact hend _ _ _ hq d
      · rw [phase_perform_ne hi, hstopped i hi]
        exact hothers i hi d

end Commits

/-! Locks: no row is locked twice, and every pending write holds its locks. -/

structure Locked (s : Sessions ι σ κ π) : Prop where
  exclusive : ∀ i j k, (i, k) ∈ s.locks → (j, k) ∈ s.locks → i = j
  held : ∀ i, ∀ w ∈ s.pending i, ∀ k ∈ w.keys, (i, k) ∈ s.locks

section Locks

variable {act : ι → π → σ → Action σ κ π} {s : Sessions ι σ κ π} {i j : ι}

omit [DecidableEq ι] [DecidableEq κ] in
theorem locked_start {d : σ} {p : π} : Locked (start d p : Sessions ι σ κ π) where
  exclusive := by simp [start]
  held := by simp [start]

omit [DecidableEq ι] [DecidableEq κ] in
theorem Locked.eq_of_pending (h : Locked s) {v w : Write σ κ} {k : κ} (hv : v ∈ s.pending i) (hw : w ∈ s.pending j)
    (hk : k ∈ v.keys) (hk' : k ∈ w.keys) : i = j :=
  h.exclusive i j k (h.held i v hv k hk) (h.held j w hw k hk')

omit [DecidableEq κ] in
theorem Locked.close (h : Locked s) (p : π) : Locked (s.close i p) where
  exclusive a b k ha hb :=
    h.exclusive a b k (List.mem_filter.mp ha).1 (List.mem_filter.mp hb).1
  held a w hw k hk := by
    by_cases ha : a = i
    · subst ha
      simp [Sessions.close] at hw
    · simp only [Sessions.close, Function.update_of_ne ha] at hw
      exact List.mem_filter.mpr ⟨h.held a w hw k hk, by simpa using ha⟩

theorem not_blocked {keys : List κ} (h : s.blocked i keys = false) {k : κ} (hk : k ∈ keys) (hj : (j, k) ∈ s.locks) :
    j = i := by
  have hl := List.any_eq_false.mp h (j, k) hj
  by_contra hne
  exact hl (by simp [hne, hk])

theorem Locked.step (h : Locked s) : Locked (s.step act i) := by
  unfold Sessions.step
  cases act i (s.phase i) (s.view i) with
  | stop => exact h
  | read p => exact ⟨h.exclusive, h.held⟩
  | commit p => exact ⟨(h.close p).exclusive, (h.close p).held⟩
  | rollback p => exact h.close p
  | write w p =>
    simp only [perform]
    cases hb : s.blocked i w.keys with
    | true => simpa using h
    | false =>
      simp only [Bool.false_eq_true, if_false]
      have hmem : ∀ a k, (a, k) ∈ s.locks ++ w.keys.map (fun k => (i, k)) ↔ (a, k) ∈ s.locks ∨ (a = i ∧ k ∈ w.keys) := by
        intro a k
        simp only [List.mem_append, List.mem_map, Prod.mk.injEq]
        constructor
        · rintro (h | ⟨k', hk', rfl, rfl⟩)
          · exact Or.inl h
          · exact Or.inr ⟨rfl, hk'⟩
        · rintro (h | ⟨rfl, hk⟩)
          · exact Or.inl h
          · exact Or.inr ⟨k, hk, rfl, rfl⟩
      refine ⟨fun a b k ha hb' => ?_, fun a v hv k hk => ?_⟩
      · rcases (hmem a k).mp ha with hold | ⟨rfl, hk⟩
        · rcases (hmem b k).mp hb' with hold' | ⟨rfl, hk⟩
          · exact h.exclusive a b k hold hold'
          · exact not_blocked hb hk hold
        · rcases (hmem b k).mp hb' with hold' | ⟨rfl, -⟩
          · exact (not_blocked hb hk hold').symm
          · rfl
      · apply (hmem a k).mpr
        by_cases ha : a = i
        · subst ha
          simp only [Function.update_self, List.mem_append, List.mem_singleton] at hv
          rcases hv with hv | rfl
          · exact Or.inl (h.held a v hv k hk)
          · exact Or.inr ⟨rfl, hk⟩
        · simp only [Function.update_of_ne ha] at hv
          exact Or.inl (h.held a v hv k hk)

end Locks

end Sessions

end ProjectManagement.Library
