import ProjectManagement.Core.Config
import ProjectManagement.Core.Exceptions
import ProjectManagement.Library.Paging
import Mathlib.Algebra.Order.Floor.Semiring
import Mathlib.Data.Rat.Floor
import Mathlib.Data.List.Sort

/-! Sorting, searching and paging of list endpoints. -/

namespace ProjectManagement

structure PageParams where
  page : ℕ := 1
  size : ℕ := 20
  sort : Option String := none
  order : SortOrder := .asc
  search : Option String := none

def PageParams.errors (p : PageParams) : List ErrorDetail :=
  (if p.page < 1 then [⟨.validationError, "Input should be greater than or equal to 1", some "query.page"⟩] else [])
    ++ (if p.size < 1 then [⟨.validationError, "Input should be greater than or equal to 1", some "query.size"⟩]
      else if 100 < p.size then [⟨.validationError, "Input should be less than or equal to 100", some "query.size"⟩]
      else [])
    ++ (p.search.map (stringLength "query.search" 1 255)).getD []

def PageParams.offset (p : PageParams) : ℕ := (p.page - 1) * p.size

structure PaginationMeta where
  page : ℕ
  size : ℕ
  total : ℕ
  pages : ℕ
  deriving DecidableEq, Repr

/-- A column value as `ORDER BY` compares it. Texts are compared by code points, as SQLite compares them and PostgreSQL under
the collation `C`; a database of another collation orders names its own way. -/
inductive Cell
  | null
  | text (s : String)
  | number (q : ℚ)

def Cell.le (nullsFirst : Bool) : Cell → Cell → Bool
  | null, null => true
  | null, _ => nullsFirst
  | _, null => !nullsFirst
  | text a, text b => decide (a ≤ b)
  | number a, number b => decide (a ≤ b)
  | text _, number _ => true
  | number _, text _ => false

def Cell.ofOption (o : Option ℕ) : Cell := o.elim .null (fun n => .number n)

structure OrderTerm (ρ : Type) where
  column : ρ → Cell
  order : SortOrder

def asc {ρ : Type} (column : ρ → Cell) : OrderTerm ρ := ⟨column, .asc⟩

def desc {ρ : Type} (column : ρ → Cell) : OrderTerm ρ := ⟨column, .desc⟩

def OrderTerm.le {ρ : Type} (nullsFirst : Bool) (t : OrderTerm ρ) (a b : ρ) : Bool :=
  match t.order with
  | .asc => Cell.le nullsFirst (t.column a) (t.column b)
  | .desc => Cell.le nullsFirst (t.column b) (t.column a)

def rowLe {ρ : Type} (nullsFirst : Bool) : List (OrderTerm ρ) → ρ → ρ → Bool
  | [], _, _ => true
  | t :: ts, a, b => t.le nullsFirst a b && (!t.le nullsFirst b a || rowLe nullsFirst ts a b)

/-- What a database makes of an `ORDER BY`. -/
abbrev Sorter (ρ : Type) := List (OrderTerm ρ) → List ρ → List ρ

/-- `ORDER BY` with the rows that tie left in the order they are stored in. The standard leaves their order open, and an index
may bring them in another. -/
def orderBy {ρ : Type} (e : Engine) (terms : List (OrderTerm ρ)) (rows : List ρ) : List ρ :=
  rows.insertionSort (fun a b => rowLe e.nullsFirst terms a b = true)

/-- The order `apply_sort` puts on a statement; an unknown key falls back on `default`. -/
def applySort {ρ : Type} (params : PageParams) (sortable : List (String × (ρ → Cell))) (default : ρ → Cell) :
    List (OrderTerm ρ) :=
  [⟨(sortable.lookup (params.sort.getD "")).getD default, params.order⟩]

def pageOf {ρ : Type} (params : PageParams) (rows : List ρ) : List ρ × PaginationMeta :=
  let total := rows.length
  ((rows.drop params.offset).take params.size,
    ⟨params.page, params.size, total, if total = 0 then 0 else ⌈(total / params.size : ℚ)⌉₊⟩)

/-- The drivers bind `OFFSET` as a signed 64-bit integer. No table holds `2 ^ 63` rows, so an offset before the last of them
is always one. -/
def PageParams.InRange (p : PageParams) (total : ℕ) : Prop := p.offset < 2 ^ 63 ∨ p.offset < total

instance {p : PageParams} {total : ℕ} : Decidable (p.InRange total) := inferInstanceAs (Decidable (_ ∨ _))

def paginate {ρ : Type} (params : PageParams) (rows : List ρ) : Except Raised (List ρ × PaginationMeta) :=
  if params.InRange rows.length then .ok (pageOf params rows) else .error .unexpected

/-- `paginate` on a statement that binds the search term. -/
def paginateSearched {ρ : Type} (e : Engine) (params : PageParams) (rows : List ρ) :
    Except Raised (List ρ × PaginationMeta) :=
  if holdsNul e params.search.toList then .error .unexpected else paginate params rows

/-- `LIKE` after case folding: `%` is any text, `_` any character, the escape makes the next one literal. -/
def likeMatch (lower : Char → Char) (escape : Option Char) : List Char → List Char → Bool
  | [], text => text.isEmpty
  | [p], text =>
    if p = '%' then true
    else match text with
      | [x] => p = '_' || lower p == lower x
      | _ => false
  | p :: q :: rest, text =>
    if some p = escape then
      match text with
      | x :: xs => lower q == lower x && likeMatch lower escape rest xs
      | [] => false
    else if p = '%' then text.tails.any (likeMatch lower escape (q :: rest))
    else match text with
      | x :: xs => (p = '_' || lower p == lower x) && likeMatch lower escape (q :: rest) xs
      | [] => false

/-- `column.ilike(f"%{search}%")`. -/
def ilike (lower : Char → Char) (e : Engine) (search text : String) : Bool :=
  likeMatch lower e.likeEscape ('%' :: search.toList ++ ['%']) text.toList

/-- The search filter of a list query: no term, or an empty one, filters nothing. -/
def searched {ρ : Type} (search : Option String) (matching : String → ρ → Bool) (rows : List ρ) : List ρ :=
  match search with
  | some s => if s = "" then rows else rows.filter (matching s)
  | none => rows

open Library

theorem fst_pageOf {ρ : Type} (params : PageParams) (rows : List ρ) :
    (pageOf params rows).1 = page params.size (params.page - 1) rows := rfl

theorem paginate_eq_ok {ρ : Type} {params : PageParams} {rows : List ρ} {page : List ρ × PaginationMeta} :
    paginate params rows = .ok page ↔ params.InRange rows.length ∧ page = pageOf params rows := by
  unfold paginate
  split <;> simp_all [eq_comm]

theorem paginateSearched_eq_ok {ρ : Type} {e : Engine} {params : PageParams} {rows : List ρ} {page : List ρ × PaginationMeta} :
    paginateSearched e params rows = .ok page ↔ holdsNul e params.search.toList = false ∧ paginate params rows = .ok page := by
  cases h : holdsNul e params.search.toList <;> simp [paginateSearched, h]

theorem size_pos {params : PageParams} (h : params.errors = []) : 0 < params.size := by
  by_contra hzero
  simp [PageParams.errors, show params.size < 1 by omega] at h

theorem pages_le_iff {ρ : Type} {params : PageParams} (hsize : 0 < params.size) (rows : List ρ) {n : ℕ} :
    (pageOf params rows).2.pages ≤ n ↔ rows.length ≤ n * params.size := by
  simp only [pageOf]
  split
  · omega
  · have hpos : (0 : ℚ) < params.size := by exact_mod_cast hsize
    rw [Nat.ceil_le, div_le_iff₀ hpos]
    exact_mod_cast Iff.rfl

theorem length_le_pages_mul {ρ : Type} {params : PageParams} (hsize : 0 < params.size) (rows : List ρ) :
    rows.length ≤ (pageOf params rows).2.pages * params.size := (pages_le_iff hsize rows).mp (Nat.le_refl _)

/-- The pages there are can all be asked for. -/
theorem inRange_of_le_pages {ρ : Type} {params : PageParams} (hsize : 0 < params.size) {rows : List ρ} {n : ℕ} (hn : 1 ≤ n)
    (h : n ≤ (pageOf params rows).2.pages) : ({ params with page := n } : PageParams).InRange rows.length := by
  have hbefore : ¬(pageOf params rows).2.pages ≤ n - 1 := by omega
  rw [pages_le_iff hsize] at hbefore
  exact Or.inr (Nat.not_le.mp hbefore)

/-! The order of a statement is total and transitive, on any columns. -/

theorem Cell.le_total (nullsFirst : Bool) (a b : Cell) : a.le nullsFirst b = true ∨ b.le nullsFirst a = true := by
  cases a with
  | null => cases b <;> cases nullsFirst <;> simp [Cell.le]
  | text s =>
    cases b with
    | null => cases nullsFirst <;> simp [Cell.le]
    | text t => simpa [Cell.le] using String.le_total s t
    | number q => simp [Cell.le]
  | number p =>
    cases b with
    | null => cases nullsFirst <;> simp [Cell.le]
    | text t => simp [Cell.le]
    | number q => simpa [Cell.le] using Rat.le_total

theorem Cell.le_trans {nullsFirst : Bool} {a b c : Cell} (hab : a.le nullsFirst b = true) (hbc : b.le nullsFirst c = true) :
    a.le nullsFirst c = true := by
  match a, b, c with
  | null, null, _ => exact hbc
  | _, null, null => exact hab
  | null, text _, null => rfl
  | null, number _, null => rfl
  | null, text _, text _ => exact hab
  | null, text _, number _ => exact hab
  | null, number _, text _ => exact hab
  | null, number _, number _ => exact hab
  | text _, null, text _ => simp_all [Cell.le]
  | text _, null, number _ => simp_all [Cell.le]
  | number _, null, text _ => simp_all [Cell.le]
  | number _, null, number _ => simp_all [Cell.le]
  | text _, text _, null => exact hbc
  | text _, number _, null => exact hbc
  | number _, text _, null => exact hbc
  | number _, number _, null => exact hbc
  | text s, text t, text u =>
    simp only [Cell.le, decide_eq_true_eq] at hab hbc ⊢
    exact String.le_trans hab hbc
  | text _, text _, number _ => rfl
  | text _, number _, number _ => rfl
  | text _, number _, text _ => simp [Cell.le] at hbc
  | number _, text _, _ => simp [Cell.le] at hab
  | number _, number _, text _ => simp [Cell.le] at hbc
  | number p, number q, number r =>
    simp only [Cell.le, decide_eq_true_eq] at hab hbc ⊢
    exact hab.trans hbc

section Terms

variable {ρ : Type} {nullsFirst : Bool}

theorem OrderTerm.le_total (t : OrderTerm ρ) (a b : ρ) : t.le nullsFirst a b = true ∨ t.le nullsFirst b a = true := by
  unfold OrderTerm.le
  cases t.order with
  | asc => exact Cell.le_total nullsFirst _ _
  | desc => exact Cell.le_total nullsFirst _ _

theorem OrderTerm.le_trans {t : OrderTerm ρ} {a b c : ρ} (hab : t.le nullsFirst a b = true)
    (hbc : t.le nullsFirst b c = true) : t.le nullsFirst a c = true := by
  unfold OrderTerm.le at hab hbc ⊢
  cases ho : t.order with
  | asc =>
    rw [ho] at hab hbc
    exact Cell.le_trans hab hbc
  | desc =>
    rw [ho] at hab hbc
    exact Cell.le_trans hbc hab

theorem rowLe_cons {t : OrderTerm ρ} {ts : List (OrderTerm ρ)} {a b : ρ} :
    rowLe nullsFirst (t :: ts) a b = true ↔
      t.le nullsFirst a b = true ∧ (t.le nullsFirst b a = true → rowLe nullsFirst ts a b = true) := by
  cases hba : t.le nullsFirst b a <;> simp [rowLe, hba]

theorem totalPreorder_rowLe (nullsFirst : Bool) (terms : List (OrderTerm ρ)) : TotalPreorder (rowLe nullsFirst terms) := by
  induction terms with
  | nil => exact ⟨fun _ _ _ _ _ => rfl, fun _ _ => Or.inl rfl⟩
  | cons t ts ih =>
    constructor
    · intro a b c hab hbc
      rw [rowLe_cons] at hab hbc ⊢
      refine ⟨OrderTerm.le_trans hab.1 hbc.1, fun hca => ?_⟩
      -- tied on the first term, the three rows are compared by the others
      exact ih.trans a b c (hab.2 (OrderTerm.le_trans hbc.1 hca)) (hbc.2 (OrderTerm.le_trans hca hab.1))
    · intro a b
      rw [rowLe_cons, rowLe_cons]
      have hle : t.le nullsFirst a b = true ∨ t.le nullsFirst b a = true := t.le_total a b
      rcases hle with hab | hba
      · by_cases hba : t.le nullsFirst b a = true
        · rcases ih.total a b with h | h
          · exact Or.inl ⟨hab, fun _ => h⟩
          · exact Or.inr ⟨hba, fun _ => h⟩
        · exact Or.inl ⟨hab, fun h => absurd h hba⟩
      · by_cases hab : t.le nullsFirst a b = true
        · rcases ih.total a b with h | h
          · exact Or.inl ⟨hab, fun _ => h⟩
          · exact Or.inr ⟨hba, fun _ => h⟩
        · exact Or.inr ⟨hba, fun h => absurd h hab⟩

end Terms

theorem perm_orderBy {ρ : Type} (e : Engine) (terms : List (OrderTerm ρ)) (rows : List ρ) :
    (orderBy e terms rows).Perm rows := List.perm_insertionSort _ rows

theorem mem_orderBy {ρ : Type} {e : Engine} {terms : List (OrderTerm ρ)} {rows : List ρ} {r : ρ} :
    r ∈ orderBy e terms rows ↔ r ∈ rows := (perm_orderBy e terms rows).mem_iff

theorem of_mem_searched {ρ : Type} {search : Option String} {matching : String → ρ → Bool} {rows : List ρ} {r : ρ}
    (h : r ∈ searched search matching rows) : r ∈ rows := by
  unfold searched at h
  split at h
  · split at h
    · exact h
    · exact (List.mem_filter.mp h).1
  · exact h

end ProjectManagement
