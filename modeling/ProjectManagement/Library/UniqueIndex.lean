import ProjectManagement.Library.ReadCommitted
import ProjectManagement.Library.Table

/-!
A unique index under READ COMMITTED. A write locks the rows it touches and the index entries of what it leaves in
them, and is checked against what its own transaction sees. No schedule breaks such an index.
-/

namespace ProjectManagement.Library

structure UniqueIndex (σ κ ρ β : Type) {α : Type} [Keyed ρ α] where
  table : σ → Table ρ
  live : ρ → Bool
  column : ρ → β
  row : α → κ
  entry : β → κ

namespace UniqueIndex

variable {ι σ κ π ρ α β : Type} [Keyed ρ α] [DecidableEq α] {I : UniqueIndex σ κ ρ β} {d d' : σ} {f : σ → σ}
  {w : Write σ κ} {vs ws : List (Write σ κ)} {keys : List κ}

def Holds (I : UniqueIndex σ κ ρ β) (d : σ) : Prop := (I.table d).Identifies I.live I.column

theorem holds_iff : I.Holds d ↔ ∀ k l x y, (I.table d).lookup k = some x → (I.table d).lookup l = some y →
    I.live x = true → I.live y = true → I.column x = I.column y → k = l := by
  constructor
  · intro h k l x y hx hy hlx hly hc
    obtain ⟨hx, hk⟩ := Table.lookup_eq_some.mp hx
    obtain ⟨hy, hl⟩ := Table.lookup_eq_some.mp hy
    rw [← hk, ← hl, h x hx hlx y hy hly hc]
  · intro h x hx hlx y hy hly hc
    have hkey := h _ _ x y (Table.lookup_eq_some.mpr ⟨hx, rfl⟩) (Table.lookup_eq_some.mpr ⟨hy, rfl⟩) hlx hly hc
    exact (I.table d).eq_of_key hx hy hkey

/-- Every row is changed by itself, and no row that is not locked. -/
structure Rowwise (I : UniqueIndex σ κ ρ β) (f : σ → σ) (keys : List κ) : Prop where
  outside : ∀ d k, I.row k ∉ keys → (I.table (f d)).lookup k = (I.table d).lookup k
  alone : ∀ d d' k, (I.table d).lookup k = (I.table d').lookup k → (I.table (f d)).lookup k = (I.table (f d')).lookup k

/-- The entry of every live row that `f` has made is locked. -/
def Covered (I : UniqueIndex σ κ ρ β) (d d' : σ) (keys : List κ) : Prop :=
  ∀ k x, (I.table d').lookup k = some x → I.live x = true → (I.table d).lookup k = some x ∨ I.entry (I.column x) ∈ keys

/-- A write, where it may be executed. -/
structure Guarded (I : UniqueIndex σ κ ρ β) (d : σ) (w : Write σ κ) : Prop where
  rowwise : I.Rowwise w.run w.keys
  covered : I.Covered d (w.run d) w.keys
  unique : I.Holds d → I.Holds (w.run d)

theorem guarded_of_idle (h : ∀ d, I.table (w.run d) = I.table d) : I.Guarded d w where
  rowwise := ⟨fun d k _ => by rw [h], fun d d' k hsame => by rw [h, h, hsame]⟩
  covered := fun k x hx _ => Or.inl (by rw [← hx, h])
  unique := fun hd => by rw [Holds, h]; exact hd

/-- A write that touches one row. -/
def Touches (I : UniqueIndex σ κ ρ β) (f : σ → σ) (k : α) (g : Option ρ → Option ρ) : Prop :=
  ∀ d l, (I.table (f d)).lookup l = if l = k then g ((I.table d).lookup l) else (I.table d).lookup l

theorem Touches.guarded {k : α} {g : Option ρ → Option ρ} (h : I.Touches w.run k g) (row : I.row k ∈ w.keys)
    (entry : ∀ x, g ((I.table d).lookup k) = some x → I.live x = true → I.entry (I.column x) ∈ w.keys)
    (new : ∀ x, g ((I.table d).lookup k) = some x → I.live x = true →
      ∀ y ∈ (I.table d).rows, I.live y = true → Keyed.key y ≠ k → I.column y ≠ I.column x) : I.Guarded d w where
  rowwise := by
    constructor
    · intro d l hl
      rw [h, if_neg]
      rintro rfl
      exact hl row
    · intro d d' l hsame
      rw [h, h, hsame]
  covered := by
    intro l x hx hlive
    rw [h] at hx
    split at hx
    · next hl =>
      subst hl
      exact Or.inr (entry x hx hlive)
    · exact Or.inl hx
  unique := by
    intro hd
    apply holds_iff.mpr
    intro l m x y hx hy hlx hly hc
    rw [h] at hx hy
    split at hx <;> split at hy
    · next hl hm => rw [hl, hm]
    · next hl hm =>
      subst hl
      obtain ⟨hmem, hkey⟩ := Table.lookup_eq_some.mp hy
      exact absurd hc.symm (new x hx hlx y hmem hly (hkey ▸ hm))
    · next hl hm =>
      subst hm
      obtain ⟨hmem, hkey⟩ := Table.lookup_eq_some.mp hx
      exact absurd hc (new y hy hly x hmem hlx (hkey ▸ hl))
    · exact holds_iff.mp hd l m x y hx hy hlx hly hc

def replayed (ws : List (Write σ κ)) (d : σ) : σ := ws.foldl (fun d w => w.run d) d

def locked (ws : List (Write σ κ)) : List κ := ws.flatMap Write.keys

/-- What a transaction has written, over what is committed. -/
structure Pending (I : UniqueIndex σ κ ρ β) (d : σ) (ws : List (Write σ κ)) : Prop where
  rowwise : I.Rowwise (replayed ws) (locked ws)
  covered : I.Covered d (replayed ws d) (locked ws)
  unique : I.Holds (replayed ws d)

theorem Pending.nil (h : I.Holds d) : I.Pending d [] where
  rowwise := ⟨fun _ _ _ => rfl, fun _ _ _ h => h⟩
  covered := fun _ _ hx _ => Or.inl hx
  unique := h

theorem replayed_append : replayed (ws ++ [w]) d = w.run (replayed ws d) := by simp [replayed]

theorem locked_append : locked (ws ++ [w]) = locked ws ++ w.keys := by simp [locked]

theorem Pending.append (h : I.Pending d ws) (hw : I.Guarded (replayed ws d) w) : I.Pending d (ws ++ [w]) where
  rowwise := by
    constructor
    · intro d k hk
      rw [locked_append, List.mem_append, not_or] at hk
      rw [replayed_append, hw.rowwise.outside _ _ hk.2, h.rowwise.outside _ _ hk.1]
    · intro d d' k hsame
      rw [replayed_append, replayed_append]
      exact hw.rowwise.alone _ _ _ (h.rowwise.alone _ _ _ hsame)
  covered := by
    intro k x hx hlive
    rw [locked_append, List.mem_append]
    rw [replayed_append] at hx
    rcases hw.covered k x hx hlive with hold | hnew
    · rcases h.covered k x hold hlive with hbase | hentry
      · exact Or.inl hbase
      · exact Or.inr (Or.inl hentry)
    · exact Or.inr (Or.inr hnew)
  unique := by
    rw [replayed_append]
    exact hw.unique h.unique

/-- Another transaction commits: it has locked other rows and other entries. -/
theorem Pending.after_commit (h : I.Pending d ws) (h' : I.Pending d vs) (disjoint : ∀ k ∈ locked ws, k ∉ locked vs) :
    I.Pending (replayed vs d) ws := by
  have own : ∀ k, I.row k ∈ locked ws →
      (I.table (replayed ws (replayed vs d))).lookup k = (I.table (replayed ws d)).lookup k := fun k hk =>
    h.rowwise.alone _ _ _ (h'.rowwise.outside _ _ (disjoint _ hk))
  have other : ∀ k, I.row k ∉ locked ws →
      (I.table (replayed ws (replayed vs d))).lookup k = (I.table (replayed vs d)).lookup k := fun k hk =>
    h.rowwise.outside _ _ hk
  -- a row of each transaction, with one entry: the one that has not locked it has found it
  have apart : ∀ k l x y, I.row k ∈ locked ws → I.row l ∉ locked ws → (I.table (replayed ws d)).lookup k = some x →
      (I.table (replayed vs d)).lookup l = some y → I.live x = true → I.live y = true → I.column x = I.column y → k = l := by
    intro k l x y hk hl hx hy hlx hly hc
    rcases h.covered k x hx hlx with hbase | hentry
    · have hx' : (I.table (replayed vs d)).lookup k = some x := by
        rw [h'.rowwise.outside _ _ (disjoint _ hk)]
        exact hbase
      exact holds_iff.mp h'.unique k l x y hx' hy hlx hly hc
    · rcases h'.covered l y hy hly with hbase | hentry'
      · have hy' : (I.table (replayed ws d)).lookup l = some y := by
          rw [h.rowwise.outside _ _ hl]
          exact hbase
        exact holds_iff.mp h.unique k l x y hx hy' hlx hly hc
      · rw [hc] at hentry
        exact absurd hentry' (disjoint _ hentry)
  refine ⟨h.rowwise, ?_, holds_iff.mpr ?_⟩
  · intro k x hx hlive
    by_cases hk : I.row k ∈ locked ws
    · rw [own k hk] at hx
      rcases h.covered k x hx hlive with hbase | hentry
      · left
        rw [h'.rowwise.outside _ _ (disjoint _ hk)]
        exact hbase
      · exact Or.inr hentry
    · rw [other k hk] at hx
      exact Or.inl hx
  · intro k l x y hx hy hlx hly hc
    by_cases hk : I.row k ∈ locked ws <;> by_cases hl : I.row l ∈ locked ws
    · rw [own k hk] at hx
      rw [own l hl] at hy
      exact holds_iff.mp h.unique k l x y hx hy hlx hly hc
    · rw [own k hk] at hx
      rw [other l hl] at hy
      exact apart k l x y hk hl hx hy hlx hly hc
    · rw [other k hk] at hx
      rw [own l hl] at hy
      exact (apart l k y x hl hk hy hx hly hlx hc.symm).symm
    · rw [other k hk] at hx
      rw [other l hl] at hy
      exact holds_iff.mp h'.unique k l x y hx hy hlx hly hc

/-! Schedules. -/

section Schedules

variable [DecidableEq ι] [DecidableEq κ] {act : ι → π → σ → Action σ κ π} {s : Sessions ι σ κ π} {i : ι} {p : π}

structure Maintained (I : UniqueIndex σ κ ρ β) (s : Sessions ι σ κ π) : Prop where
  locks : s.Locked
  committed : I.Holds s.committed
  pending : ∀ i, I.Pending s.committed (s.pending i)

omit [DecidableEq ι] [DecidableEq κ] in
theorem Maintained.view (h : I.Maintained s) (i : ι) : I.Holds (s.view i) := (h.pending i).unique

omit [DecidableEq ι] [DecidableEq κ] in
theorem maintained_start (h : I.Holds d) : I.Maintained (Sessions.start d p : Sessions ι σ κ π) :=
  ⟨Sessions.locked_start, h, fun _ => .nil h⟩

omit [DecidableEq α] [DecidableEq ι] [DecidableEq κ] in
theorem disjoint_of_locked (h : s.Locked) {j : ι} (hij : j ≠ i) : ∀ k ∈ locked (s.pending j), k ∉ locked (s.pending i) := by
  intro k hk hk'
  obtain ⟨w, hw, hkw⟩ := List.mem_flatMap.mp hk
  obtain ⟨v, hv, hkv⟩ := List.mem_flatMap.mp hk'
  exact hij (h.eq_of_pending hw hv hkw hkv)

theorem Maintained.step (h : I.Maintained s)
    (writes : ∀ d w q, act i (s.phase i) d = .write w q → I.Guarded d w) : I.Maintained (s.step act i) := by
  have hlocks : (s.step act i).Locked := h.locks.step
  unfold Sessions.step at hlocks ⊢
  cases ha : act i (s.phase i) (s.view i) with
  | stop => exact h
  | read q => exact ⟨⟨h.locks.exclusive, h.locks.held⟩, h.committed, h.pending⟩
  | write w q =>
    rw [ha] at hlocks
    cases hb : s.blocked i w.keys with
    | true =>
      rw [Sessions.perform_blocked hb]
      exact h
    | false =>
      refine ⟨hlocks, ?_, fun j => ?_⟩ <;> rw [Sessions.committed_perform (by simp)]
      · exact h.committed
      · by_cases hj : j = i
        · rw [hj, Sessions.pending_perform_write hb]
          exact (h.pending i).append (writes _ _ _ ha)
        · rw [Sessions.pending_perform_ne hj]
          exact h.pending j
  | commit q =>
    rw [ha] at hlocks
    refine ⟨hlocks, h.view i, fun j => ?_⟩
    by_cases hj : j = i
    · rw [hj, Sessions.perform, Sessions.pending_close]
      exact .nil (h.view i)
    · rw [Sessions.pending_perform_ne hj]
      exact (h.pending j).after_commit (h.pending i) (disjoint_of_locked h.locks hj)
  | rollback q =>
    rw [ha] at hlocks
    refine ⟨hlocks, h.committed, fun j => ?_⟩
    by_cases hj : j = i
    · rw [hj, Sessions.perform, Sessions.pending_close]
      exact .nil h.committed
    · rw [Sessions.pending_perform_ne hj]
      exact h.pending j

theorem maintained_play (writes : ∀ i p d w q, act i p d = .write w q → I.Guarded d w) (h : I.Holds d) (schedule : List ι) :
    I.Maintained ((Sessions.start d p).play act schedule) :=
  Sessions.play_invariant (fun _ i hs => hs.step (writes i _)) (maintained_start h) schedule

end Schedules

end UniqueIndex

end ProjectManagement.Library
