import Mathlib.Data.List.Perm.Basic
import Mathlib.Data.List.Nodup
import Mathlib.Data.List.Pairwise

/-!
Offset paging of sorted rows. A sort resolves the ties of a preorder as it likes, and on every page anew; a walk through the
pages then loses and repeats nothing exactly when no group of ties crosses a page boundary.
-/

namespace ProjectManagement.Library

variable {ρ : Type}

section Pages

/-- Pages are numbered from zero. -/
def page (size k : ℕ) (rows : List ρ) : List ρ := (rows.drop (k * size)).take size

theorem flatMap_page (size n : ℕ) (rows : List ρ) :
    (List.range n).flatMap (fun k => page size k rows) = rows.take (n * size) := by
  induction n with
  | zero => simp
  | succ n ih =>
    rw [List.range_succ, List.flatMap_append, ih, Nat.succ_mul, List.take_add]
    simp [page]

theorem map_page {β : Type} (f : ρ → β) (size k : ℕ) (rows : List ρ) : (page size k rows).map f = page size k (rows.map f) := by
  rw [page, page, List.map_take, List.map_drop]

theorem mapM_eq_some {β : Type} {f : ρ → Option β} {rows : List ρ} {items : List β} :
    rows.mapM f = some items ↔ rows.map f = items.map some := by
  induction rows generalizing items with
  | nil => cases items <;> simp
  | cons r rows ih =>
    cases items with
    | nil =>
      cases hr : f r with
      | none => simp [hr]
      | some x => cases hrows : rows.mapM f <;> simp [hr, hrows]
    | cons x items =>
      cases hr : f r with
      | none => simp [hr]
      | some y =>
        have htail : rows.mapM f = some items ↔ rows.map f = items.map some := ih
        cases hrows : rows.mapM f <;> simp_all

theorem exists_mapM {β : Type} {f : ρ → Option β} {rows : List ρ} (h : ∀ r ∈ rows, ∃ x, f r = some x) :
    ∃ items, rows.mapM f = some items := by
  induction rows with
  | nil => exact ⟨[], rfl⟩
  | cons r rows ih =>
    obtain ⟨x, hx⟩ := h r List.mem_cons_self
    obtain ⟨items, hitems⟩ := ih fun r hr => h r (List.mem_cons_of_mem _ hr)
    exact ⟨x :: items, by simp [hx, hitems]⟩

theorem page_sublist (size k : ℕ) (rows : List ρ) : (page size k rows).Sublist rows :=
  (List.take_sublist size _).trans (List.drop_sublist _ _)

theorem mem_page {size k : ℕ} {rows : List ρ} {x : ρ} (hsize : 0 < size) :
    x ∈ page size k rows ↔ ∃ l₁ l₂, rows = l₁ ++ x :: l₂ ∧ l₁.length / size = k := by
  constructor
  · intro h
    obtain ⟨i, hi, hx⟩ := List.mem_iff_getElem.mp h
    have hlen : i < size ∧ k * size + i < rows.length := by
      rw [page, List.length_take, List.length_drop] at hi
      omega
    refine ⟨rows.take (k * size + i), rows.drop (k * size + i + 1), ?_, ?_⟩
    · have hget : rows[k * size + i] = x := by
        rw [← hx]
        simp [page]
      rw [← hget, ← List.drop_eq_getElem_cons hlen.2, List.take_append_drop]
    · rw [List.length_take_of_le (by omega), Nat.mul_comm, Nat.mul_add_div hsize, Nat.div_eq_of_lt hlen.1, Nat.add_zero]
  · rintro ⟨l₁, l₂, rfl, rfl⟩
    have hle : l₁.length / size * size ≤ l₁.length := Nat.div_mul_le_self _ _
    have hshort : (l₁.drop (l₁.length / size * size)).length < size := by
      have hdiv := Nat.div_add_mod' l₁.length size
      have hmod := Nat.mod_lt l₁.length hsize
      rw [List.length_drop]
      omega
    rw [page, List.drop_append_of_le_length hle, List.take_append, List.take_cons (by omega)]
    exact List.mem_append_right _ List.mem_cons_self

theorem mem_page_or_drop {size k : ℕ} {rows : List ρ} {x : ρ} (h : x ∈ rows.drop (k * size)) :
    x ∈ page size k rows ∨ x ∈ rows.drop ((k + 1) * size) := by
  rw [← List.take_append_drop size (rows.drop (k * size)), List.drop_drop, ← Nat.succ_mul] at h
  exact List.mem_append.mp h

/-- Read one after another, the pages of a list that grows at the front miss nothing that was in it at first. -/
theorem exists_mem_page_of_growing {size n : ℕ} {rows : ℕ → List ρ} {x : ρ} (grows : ∀ k < n, rows k <:+ rows (k + 1))
    (hx : x ∈ rows 0) (hend : (rows n).length ≤ (n + 1) * size) : ∃ k ≤ n, x ∈ page size k (rows k) := by
  by_contra hmissed
  push Not at hmissed
  have hahead : ∀ k ≤ n, x ∈ (rows k).drop ((k + 1) * size) := by
    intro k hk
    induction k with
    | zero =>
      apply (mem_page_or_drop ?_).resolve_left (hmissed 0 hk)
      simpa using hx
    | succ k ih =>
      apply (mem_page_or_drop ?_).resolve_left (hmissed (k + 1) hk)
      -- what is still ahead has only moved further back
      obtain ⟨new, hrows⟩ := grows k (by omega)
      rw [← hrows]
      have hsuffix : (rows k).drop ((k + 1) * size) <:+ (new ++ rows k).drop ((k + 1) * size) := by
        apply List.suffix_of_suffix_length_le ((List.drop_suffix _ _).trans (List.suffix_append _ _)) (List.drop_suffix _ _)
        simp only [List.length_drop, List.length_append]
        omega
      exact hsuffix.subset (ih (by omega))
  have hnone := hahead n (Nat.le_refl n)
  rw [List.drop_eq_nil_of_le hend] at hnone
  exact List.not_mem_nil hnone

end Pages

structure TotalPreorder (le : ρ → ρ → Bool) : Prop where
  trans : ∀ a b c, le a b = true → le b c = true → le a c = true
  total : ∀ a b, le a b = true ∨ le b a = true

theorem TotalPreorder.refl {le : ρ → ρ → Bool} (h : TotalPreorder le) (a : ρ) : le a a = true := by
  rcases h.total a a with h | h
  · exact h
  · exact h

structure Resolves (le : ρ → ρ → Bool) (rows result : List ρ) : Prop where
  perm : result.Perm rows
  sorted : result.Pairwise (fun a b => le a b = true)

section Ties

variable {le : ρ → ρ → Bool} {rows result : List ρ} {x y : ρ} {size n : ℕ}

/-- How many rows come before `x` in any order, and how many in none come after it. -/
def before (le : ρ → ρ → Bool) (rows : List ρ) (x : ρ) : ℕ := rows.countP (fun y => !le x y)

def upTo (le : ρ → ρ → Bool) (rows : List ρ) (x : ρ) : ℕ := rows.countP (fun y => le y x)

theorem upTo_le_length : upTo le rows x ≤ rows.length := List.countP_le_length

theorem Resolves.position (h : TotalPreorder le) {l₁ l₂ : List ρ} (hr : Resolves le rows (l₁ ++ x :: l₂)) :
    before le rows x ≤ l₁.length ∧ l₁.length < upTo le rows x := by
  obtain ⟨-, hafter, hbefore⟩ := List.pairwise_append.mp hr.sorted
  have hlow : ∀ y ∈ l₁, le y x = true := fun y hy => hbefore y hy x List.mem_cons_self
  have hhigh : ∀ y ∈ l₂, le x y = true := (List.pairwise_cons.mp hafter).1
  constructor
  · have hzero : l₂.countP (fun y => !le x y) = 0 := List.countP_eq_zero.mpr fun y hy => by simp [hhigh y hy]
    rw [before, ← hr.perm.countP_eq, List.countP_append, List.countP_cons, hzero]
    simpa [h.refl] using List.countP_le_length
  · have hall : l₁.countP (fun y => le y x) = l₁.length := List.countP_eq_length.mpr hlow
    rw [upTo, ← hr.perm.countP_eq, List.countP_append, List.countP_cons, hall]
    simp [h.refl]

/-! The rows below `x`, with it, and above it, and what stands between them in a sorted list. -/

def below (le : ρ → ρ → Bool) (rows : List ρ) (x : ρ) : List ρ := rows.filter (fun y => !le x y)

def level (le : ρ → ρ → Bool) (rows : List ρ) (x : ρ) : List ρ := (rows.filter (fun y => le x y)).filter (fun y => le y x)

def above (le : ρ → ρ → Bool) (rows : List ρ) (x : ρ) : List ρ := (rows.filter (fun y => le x y)).filter (fun y => !le y x)

theorem perm_levels : (below le rows x ++ (level le rows x ++ above le rows x)).Perm rows := by
  have hlow : (below le rows x ++ rows.filter (fun y => le x y)).Perm rows := by
    have := List.filter_append_perm (fun y => !le x y) rows
    simpa only [below, Bool.not_not] using this
  exact ((List.filter_append_perm (fun y => le y x) _).append_left _).trans hlow

theorem before_eq : before le rows x = (below le rows x).length := List.countP_eq_length_filter

theorem upTo_eq (h : TotalPreorder le) : upTo le rows x = (below le rows x).length + (level le rows x).length := by
  have hlow : (below le rows x).countP (fun y => le y x) = (below le rows x).length := by
    apply List.countP_eq_length.mpr
    intro y hy
    have hxy : le x y = false := by simpa using (List.mem_filter.mp hy).2
    exact (h.total y x).resolve_right (by simp [hxy])
  have hlevel : (level le rows x).countP (fun y => le y x) = (level le rows x).length :=
    List.countP_eq_length.mpr fun y hy => (List.mem_filter.mp hy).2
  have habove : (above le rows x).countP (fun y => le y x) = 0 :=
    List.countP_eq_zero.mpr fun y hy => by simpa using (List.mem_filter.mp hy).2
  rw [upTo, ← (@perm_levels ρ le rows x).countP_eq, List.countP_append, List.countP_append, hlow, hlevel, habove, Nat.add_zero]

theorem mem_level (h : TotalPreorder le) (hx : x ∈ rows) : x ∈ level le rows x := by
  simp [level, hx, h.refl]

theorem upTo_eq_add (h : TotalPreorder le) :
    upTo le rows x = before le rows x + rows.countP (fun y => le x y && le y x) := by
  rw [upTo_eq h, before_eq, level, List.filter_filter, List.countP_eq_length_filter]
  simp only [Bool.and_comm]

def OnOnePage (le : ρ → ρ → Bool) (size : ℕ) (rows : List ρ) (x : ρ) : Prop :=
  before le rows x / size = (upTo le rows x - 1) / size

instance {x : ρ} : Decidable (OnOnePage le size rows x) := inferInstanceAs (Decidable (_ = _))

theorem Resolves.mem_page (h : TotalPreorder le) (hr : Resolves le rows result) (hsize : 0 < size) (hx : x ∈ rows)
    (whole : OnOnePage le size rows x) {k : ℕ} : x ∈ page size k result ↔ k = before le rows x / size := by
  have hpage : ∀ l₁ l₂, result = l₁ ++ x :: l₂ → l₁.length / size = before le rows x / size := by
    rintro l₁ l₂ rfl
    obtain ⟨hlow, hhigh⟩ := hr.position h
    apply Nat.le_antisymm
    · rw [whole]
      exact Nat.div_le_div_right (by omega)
    · exact Nat.div_le_div_right hlow
  rw [Library.mem_page hsize]
  constructor
  · rintro ⟨l₁, l₂, hres, rfl⟩
    exact hpage l₁ l₂ hres
  · rintro rfl
    obtain ⟨l₁, l₂, hres⟩ := List.append_of_mem (hr.perm.mem_iff.mpr hx)
    exact ⟨l₁, l₂, hres, hpage l₁ l₂ hres⟩

theorem onOnePage_of_unique (h : TotalPreorder le) (nodup : rows.Nodup) (hx : x ∈ rows)
    (unique : ∀ y ∈ rows, le x y = true → le y x = true → y = x) : OnOnePage le size rows x := by
  have hlevel : (level le rows x).length ≤ 1 := by
    have hall : ∀ y ∈ level le rows x, y = x := by
      intro y hy
      obtain ⟨hy, hyx⟩ := List.mem_filter.mp hy
      exact unique y (List.mem_filter.mp hy).1 (List.mem_filter.mp hy).2 hyx
    have hnodup : (level le rows x).Nodup := (nodup.filter _).filter _
    rw [List.eq_replicate_of_mem hall, List.nodup_replicate] at hnodup
    exact hnodup
  have hpos : 0 < (level le rows x).length := List.length_pos_of_mem (mem_level h hx)
  rw [OnOnePage, before_eq, upTo_eq h]
  congr 1
  omega

/-- Pages `0` to `n - 1`, each from an answer of its own. -/
def walk (size n : ℕ) (answer : ℕ → List ρ) : List ρ := (List.range n).flatMap (fun k => page size k (answer k))

theorem mem_walk {answer : ℕ → List ρ} : x ∈ walk size n answer ↔ ∃ k < n, x ∈ page size k (answer k) := by
  simp [walk]

/-- What the answers agree on, the walk shows once and in that order. -/
theorem map_walk {κ : Type} {f : ρ → κ} {keys : List κ} {answer : ℕ → List ρ} (hkeys : ∀ k, (answer k).map f = keys)
    (hn : keys.length ≤ n * size) : (walk size n answer).map f = keys := by
  simp only [walk, List.map_flatMap, map_page, hkeys, flatMap_page]
  exact List.take_of_length_le hn

theorem walk_perm (h : TotalPreorder le) (hsize : 0 < size) (hn : rows.length ≤ n * size) (nodup : rows.Nodup)
    (whole : ∀ x ∈ rows, OnOnePage le size rows x) {answer : ℕ → List ρ}
    (answers : ∀ k, Resolves le rows (answer k)) : (walk size n answer).Perm rows := by
  have hrows : ∀ {x k}, x ∈ page size k (answer k) → x ∈ rows := fun {x k} hx =>
    (answers k).perm.mem_iff.mp ((page_sublist size k (answer k)).subset hx)
  have hnodup : (walk size n answer).Nodup := by
    rw [walk, List.nodup_flatMap]
    refine ⟨fun k _ => ((answers k).perm.nodup_iff.mpr nodup).sublist (page_sublist size k _), ?_⟩
    apply List.nodup_range.imp
    intro k k' hne x hx hx'
    have hk := ((answers k).mem_page h hsize (hrows hx) (whole x (hrows hx))).mp hx
    have hk' := ((answers k').mem_page h hsize (hrows hx') (whole x (hrows hx'))).mp hx'
    exact hne (hk.trans hk'.symm)
  apply (List.perm_ext_iff_of_nodup hnodup nodup).mpr
  intro x
  rw [mem_walk]
  constructor
  · rintro ⟨k, -, hx⟩
    exact hrows hx
  · intro hx
    obtain ⟨l₁, l₂, hl⟩ := List.append_of_mem ((answers 0).perm.mem_iff.mpr hx)
    have hposition := (hl ▸ answers 0).position h
    have hlen : upTo le rows x ≤ rows.length := upTo_le_length
    have hlt : before le rows x < rows.length := by omega
    refine ⟨before le rows x / size, ?_, ((answers _).mem_page h hsize hx (whole x hx)).mpr rfl⟩
    exact Nat.div_lt_of_lt_mul (by rw [Nat.mul_comm]; omega)

theorem resolves_levels (h : TotalPreorder le) {ties : List ρ} (hties : ties.Perm (level le rows x)) :
    Resolves le rows ((below le rows x).mergeSort le ++ (ties ++ (above le rows x).mergeSort le)) where
  perm := ((List.mergeSort_perm _ le).append (hties.append (List.mergeSort_perm _ le))).trans perm_levels
  sorted := by
    have total : ∀ a b, (le a b || le b a) = true := fun a b => by simpa using h.total a b
    have hbelow : ∀ y ∈ (below le rows x).mergeSort le, le y x = true := by
      intro y hy
      have hxy : le x y = false := by simpa using (List.mem_filter.mp (List.mem_mergeSort.mp hy)).2
      exact (h.total y x).resolve_right (by simp [hxy])
    have hlevel : ∀ y ∈ ties, le x y = true ∧ le y x = true := by
      intro y hy
      obtain ⟨hy, hyx⟩ := List.mem_filter.mp (hties.mem_iff.mp hy)
      exact ⟨(List.mem_filter.mp hy).2, hyx⟩
    have habove : ∀ y ∈ (above le rows x).mergeSort le, le x y = true := by
      intro y hy
      exact (List.mem_filter.mp (List.mem_filter.mp (List.mem_mergeSort.mp hy)).1).2
    rw [List.pairwise_append, List.pairwise_append]
    refine ⟨List.pairwise_mergeSort h.trans total _, ⟨?_, List.pairwise_mergeSort h.trans total _, ?_⟩, ?_⟩
    · exact List.pairwise_of_forall_mem_list fun y hy z hz => h.trans y x z (hlevel y hy).2 (hlevel z hz).1
    · exact fun y hy z hz => h.trans y x z (hlevel y hy).2 (habove z hz)
    · intro y hy z hz
      rcases List.mem_append.mp hz with hz | hz
      · exact h.trans y x z (hbelow y hy) (hlevel z hz).1
      · exact h.trans y x z (hbelow y hy) (habove z hz)

theorem before_lt_upTo (h : TotalPreorder le) (hx : x ∈ rows) : before le rows x < upTo le rows x := by
  have hpos := List.length_pos_of_mem (mem_level h hx)
  rw [before_eq, upTo_eq h]
  omega

/-- A row may come in any of the places its ties leave it. -/
theorem exists_resolves_at (h : TotalPreorder le) (hx : x ∈ rows) {i : ℕ} (low : before le rows x ≤ i) (high : i < upTo le rows x) :
    ∃ l₁ l₂, Resolves le rows (l₁ ++ x :: l₂) ∧ l₁.length = i := by
  obtain ⟨s, t, hlevel⟩ := List.append_of_mem (mem_level h hx)
  let j := i - before le rows x
  have hties : ((s ++ t).take j ++ x :: (s ++ t).drop j).Perm (level le rows x) := by
    rw [hlevel]
    apply List.perm_middle.trans
    rw [List.take_append_drop]
    exact List.perm_middle.symm
  have hres := resolves_levels h hties
  refine ⟨(below le rows x).mergeSort le ++ (s ++ t).take j, (s ++ t).drop j ++ (above le rows x).mergeSort le, ?_, ?_⟩
  · simpa using hres
  · have hlen := congrArg List.length hlevel
    rw [upTo_eq h, hlen] at high
    simp only [List.length_append, List.length_cons] at high
    rw [List.length_append, List.length_mergeSort, ← before_eq, List.length_take, List.length_append]
    rw [← before_eq] at high
    omega

/-- The place of a row in a resolution, by its index. -/
theorem Resolves.index (h : TotalPreorder le) (hr : Resolves le rows result) {i : ℕ} (hi : result[i]? = some x) :
    before le rows x ≤ i ∧ i < upTo le rows x := by
  obtain ⟨hlt, rfl⟩ := List.getElem?_eq_some_iff.mp hi
  have hsplit : result.take i ++ result[i] :: result.drop (i + 1) = result := by
    rw [← List.drop_eq_getElem_cons hlt, List.take_append_drop]
  have hposition := (hsplit ▸ hr : Resolves le rows (result.take i ++ result[i] :: result.drop (i + 1))).position h
  rwa [List.length_take_of_le (Nat.le_of_lt hlt)] at hposition

/-- A walk that loses and repeats nothing, whatever the answers, keeps every group of ties on one page. -/
theorem onOnePage_of_walk (h : TotalPreorder le) (hsize : 0 < size) (hn : rows.length ≤ n * size) (nodup : rows.Nodup)
    (perm : ∀ answer : ℕ → List ρ, (∀ k, Resolves le rows (answer k)) → (walk size n answer).Perm rows) (hx : x ∈ rows) :
    OnOnePage le size rows x := by
  by_contra hne
  have hplaces := before_lt_upTo h hx
  obtain ⟨l₁, l₂, first, hfirst⟩ := exists_resolves_at h hx (Nat.le_refl _) hplaces
  obtain ⟨m₁, m₂, last, hlast⟩ := exists_resolves_at h hx (i := upTo le rows x - 1) (by omega) (by omega)
  -- the page of the first position is asked for with `x` there, all others with `x` in the last position
  let answer : ℕ → List ρ := fun k => if k = before le rows x / size then l₁ ++ x :: l₂ else m₁ ++ x :: m₂
  have answers : ∀ k, Resolves le rows (answer k) := by
    intro k
    by_cases hk : k = before le rows x / size
    · simpa only [answer, if_pos hk] using first
    · simpa only [answer, if_neg hk] using last
  have hnodup : (walk size n answer).Nodup := (perm answer answers).nodup_iff.mpr nodup
  have hposition := first.position h
  have hlt : upTo le rows x ≤ n * size := Nat.le_trans upTo_le_length hn
  have hk : before le rows x / size < n := Nat.div_lt_of_lt_mul (by rw [Nat.mul_comm]; omega)
  have hk' : (upTo le rows x - 1) / size < n := Nat.div_lt_of_lt_mul (by rw [Nat.mul_comm]; omega)
  have hon : x ∈ page size (before le rows x / size) (answer (before le rows x / size)) := by
    simp only [answer, if_true]
    exact (mem_page hsize).mpr ⟨l₁, l₂, rfl, by rw [hfirst]⟩
  have hon' : x ∈ page size ((upTo le rows x - 1) / size) (answer ((upTo le rows x - 1) / size)) := by
    simp only [answer, if_neg (Ne.symm hne)]
    exact (mem_page hsize).mpr ⟨m₁, m₂, rfl, by rw [hlast]⟩
  rw [walk, List.nodup_flatMap] at hnodup
  have : Std.Symm (Function.onFun List.Disjoint fun k => page size k (answer k)) := ⟨fun _ _ hd a ha ha' => hd ha' ha⟩
  have hdisjoint := hnodup.2.forall (List.mem_range.mpr hk) (List.mem_range.mpr hk') hne
  exact hdisjoint hon hon'

theorem walk_perm_iff (h : TotalPreorder le) (hsize : 0 < size) (hn : rows.length ≤ n * size) (nodup : rows.Nodup) :
    (∀ answer : ℕ → List ρ, (∀ k, Resolves le rows (answer k)) → (walk size n answer).Perm rows) ↔
      ∀ x ∈ rows, OnOnePage le size rows x :=
  ⟨fun perm _ hx => onOnePage_of_walk h hsize hn nodup perm hx,
    fun whole _ answers => walk_perm h hsize hn nodup whole answers⟩

/-! Two orders of the same rows. -/

theorem page_eq_iff {l l' : List ρ} {k : ℕ} :
    page size k l = page size k l' ↔ ∀ i, k * size ≤ i → i < (k + 1) * size → l[i]? = l'[i]? := by
  have hget : ∀ (l : List ρ) (j : ℕ), (page size k l)[j]? = if j < size then l[k * size + j]? else none := by
    intro l j
    rw [page, List.getElem?_take, List.getElem?_drop]
  rw [List.ext_getElem?_iff]
  simp only [hget, Nat.succ_mul]
  constructor
  · intro h i hlow hhigh
    have hi := h (i - k * size)
    rwa [if_pos (by omega), if_pos (by omega), Nat.add_sub_cancel' hlow] at hi
  · intro h j
    split
    · exact h _ (by omega) (by omega)
    · rfl

theorem getElem?_of_append {l₁ l₂ : List ρ} {i : ℕ} (hi : l₁.length = i) : (l₁ ++ x :: l₂)[i]? = some x := by
  subst hi
  simp

/-- Two orders put the same rows in the same places of a page, however their ties fall, exactly when each row that may come
there has one place under either, the same. -/
theorem pages_agree_iff {le' : ρ → ρ → Bool} {k : ℕ} (h : TotalPreorder le) (h' : TotalPreorder le') (hsize : 0 < size)
    (nodup : rows.Nodup) :
    (∀ l l', Resolves le rows l → Resolves le' rows l' → page size k l = page size k l') ↔
      ∀ x ∈ rows, before le' rows x / size ≤ k → k ≤ (upTo le' rows x - 1) / size →
        upTo le rows x = before le rows x + 1 ∧ upTo le' rows x = before le' rows x + 1 ∧
          before le rows x = before le' rows x := by
  simp only [page_eq_iff]
  constructor
  · intro agree x hx hlow hhigh
    have hplaces := before_lt_upTo h hx
    have hplaces' := before_lt_upTo h' hx
    -- a place on the page that the second order leaves to `x`
    obtain ⟨i, hi, hpage⟩ : ∃ i, (before le' rows x ≤ i ∧ i < upTo le' rows x) ∧ k * size ≤ i ∧ i < (k + 1) * size := by
      have hafter := (Nat.le_div_iff_mul_le hsize).mp hhigh
      have hbefore := Nat.lt_succ_of_le hlow
      rw [Nat.div_lt_iff_lt_mul hsize] at hbefore
      refine ⟨max (before le' rows x) (k * size), ⟨Nat.le_max_left _ _, ?_⟩, Nat.le_max_right _ _, ?_⟩
      · omega
      · rw [Nat.max_lt]
        exact ⟨hbefore, Nat.mul_lt_mul_of_pos_right (Nat.lt_succ_self k) hsize⟩
    obtain ⟨m₁, m₂, hm, hmi⟩ := exists_resolves_at h' hx hi.1 hi.2
    have hat : ∀ l, Resolves le rows l → l[i]? = some x := fun l hl =>
      (agree l _ hl hm i hpage.1 hpage.2).trans (getElem?_of_append hmi)
    have hunique : ∀ {l : List ρ}, l.Nodup → l[i]? = some x → ∀ j, l[j]? = some x → j = i := by
      intro l hl hli j hlj
      obtain ⟨hlt, -⟩ := List.getElem?_eq_some_iff.mp hlj
      exact (List.getElem?_inj hlt hl).mp (hlj.trans hli.symm)
    have hone : ∀ j, before le rows x ≤ j → j < upTo le rows x → j = i := by
      intro j hlow hhigh
      obtain ⟨l₁, l₂, hl, hlj⟩ := exists_resolves_at h hx hlow hhigh
      exact hunique (hl.perm.nodup_iff.mpr nodup) (hat _ hl) j (getElem?_of_append hlj)
    have hone' : ∀ j, before le' rows x ≤ j → j < upTo le' rows x → j = i := by
      intro j hlow hhigh
      obtain ⟨l₁, l₂, hl, -⟩ := exists_resolves_at h hx (Nat.le_refl _) hplaces
      obtain ⟨n₁, n₂, hn, hnj⟩ := exists_resolves_at h' hx hlow hhigh
      have hni := (agree _ _ hl hn i hpage.1 hpage.2).symm.trans (hat _ hl)
      exact hunique (hn.perm.nodup_iff.mpr nodup) hni j (getElem?_of_append hnj)
    have hfirst := hone _ (Nat.le_refl _) hplaces
    have hlast := hone (upTo le rows x - 1) (by omega) (by omega)
    have hfirst' := hone' _ (Nat.le_refl _) hplaces'
    have hlast' := hone' (upTo le' rows x - 1) (by omega) (by omega)
    omega
  · intro agree l l' hl hl' i hlow hhigh
    cases hi : l'[i]? with
    | none =>
      have hlength := hl.perm.length_eq.trans hl'.perm.length_eq.symm
      rw [List.getElem?_eq_none_iff] at hi ⊢
      omega
    | some x =>
      have hx : x ∈ rows := hl'.perm.mem_iff.mp (List.mem_of_getElem? hi)
      obtain ⟨hbefore, hafter⟩ := hl'.index h' hi
      obtain ⟨halone, halone', hsame⟩ := agree x hx
        (Nat.le_of_lt_succ ((Nat.div_lt_iff_lt_mul hsize).mpr (Nat.lt_of_le_of_lt hbefore hhigh))) ((Nat.le_div_iff_mul_le hsize).mpr (by omega))
      obtain ⟨j, hj⟩ := List.mem_iff_getElem?.mp (hl.perm.mem_iff.mpr hx)
      obtain ⟨hbefore', hafter'⟩ := hl.index h hj
      obtain rfl : j = i := by omega
      exact hj

end Ties

end ProjectManagement.Library
