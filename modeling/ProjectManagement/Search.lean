import ProjectManagement.Kanban
import Mathlib.Data.List.Infix

/-!
Searching a list. The term is put between two `%` and read as a `LIKE` pattern; it means the substring only where no character
of it means something else.
-/

namespace ProjectManagement

open Library

def contains (lower : Char → Char) (search text : String) : Bool :=
  decide (search.toList.map lower <:+: text.toList.map lower)

/-- The characters a pattern does not take literally. -/
def special (escape : Option Char) (x : Char) : Prop := x = '%' ∨ x = '_' ∨ some x = escape

instance (escape : Option Char) (x : Char) : Decidable (special escape x) := inferInstanceAs (Decidable (_ ∨ _ ∨ _))

def Plain (escape : Option Char) (pattern : List Char) : Prop := ∀ x ∈ pattern, ¬special escape x

section Matching

variable {lower : Char → Char} {escape : Option Char} {p q : Char} {rest text pattern : List Char}

theorem likeMatch_nil : likeMatch lower escape [] text = true ↔ text = [] := by
  rw [likeMatch]
  exact List.isEmpty_iff

theorem likeMatch_singleton : likeMatch lower escape [p] text = true ↔
    p = '%' ∨ ∃ x, text = [x] ∧ (p = '_' ∨ lower p = lower x) := by
  by_cases hp : p = '%'
  · simp [likeMatch, hp]
  · match text with
    | [] => simp [likeMatch, hp]
    | [x] => simp [likeMatch, hp]
    | x :: y :: xs => simp [likeMatch, hp]

theorem likeMatch_cons_cons : likeMatch lower escape (p :: q :: rest) text =
    if some p = escape then
      match text with
      | x :: xs => lower q == lower x && likeMatch lower escape rest xs
      | [] => false
    else if p = '%' then text.tails.any (likeMatch lower escape (q :: rest))
    else match text with
      | x :: xs => (p = '_' || lower p == lower x) && likeMatch lower escape (q :: rest) xs
      | [] => false := by
  exact (likeMatch.eq_def lower escape (p :: q :: rest) text).trans rfl

theorem likeMatch_percent (hescape : escape ≠ some '%') :
    likeMatch lower escape ('%' :: rest) text = true ↔ ∃ suffix, suffix <:+ text ∧ likeMatch lower escape rest suffix = true := by
  cases rest with
  | nil =>
    rw [likeMatch_singleton]
    simp only [true_or, true_iff]
    exact ⟨[], List.nil_suffix, rfl⟩
  | cons q rest =>
    rw [likeMatch_cons_cons, if_neg (Ne.symm hescape), if_pos rfl, List.any_eq_true]
    simp only [List.mem_tails]

theorem likeMatch_character (hp : ¬special escape p) : likeMatch lower escape (p :: rest) text = true ↔
    ∃ x xs, text = x :: xs ∧ lower p = lower x ∧ likeMatch lower escape rest xs = true := by
  have hp' : p ≠ '%' ∧ p ≠ '_' ∧ some p ≠ escape := by
    simpa [special] using hp
  cases rest with
  | nil =>
    rw [likeMatch_singleton]
    simp only [hp'.1, hp'.2.1, false_or, likeMatch_nil]
    constructor
    · rintro ⟨x, rfl, hx⟩
      exact ⟨x, [], rfl, hx, rfl⟩
    · rintro ⟨x, _, rfl, hx, rfl⟩
      exact ⟨x, rfl, hx⟩
  | cons q rest =>
    rw [likeMatch_cons_cons, if_neg hp'.2.2, if_neg hp'.1]
    cases text with
    | nil => simp
    | cons x xs => simp [hp'.2.1]

theorem likeMatch_one (hescape : escape ≠ some '_') : likeMatch lower escape ('_' :: rest) text = true ↔
    ∃ x xs, text = x :: xs ∧ likeMatch lower escape rest xs = true := by
  cases rest with
  | nil =>
    rw [likeMatch_singleton]
    simp [likeMatch_nil]
  | cons q rest =>
    rw [likeMatch_cons_cons, if_neg (Ne.symm hescape), if_neg (by decide)]
    cases text with
    | nil => simp
    | cons x xs => simp

theorem likeMatch_escaped (hp : some p = escape) : likeMatch lower escape (p :: q :: rest) text = true ↔
    ∃ x xs, text = x :: xs ∧ lower q = lower x ∧ likeMatch lower escape rest xs = true := by
  rw [likeMatch_cons_cons, if_pos hp]
  cases text with
  | nil => simp
  | cons x xs => simp

/-! A term without special characters. -/

theorem likeMatch_front (hescape : escape ≠ some '%') (plain : Plain escape pattern) :
    likeMatch lower escape (pattern ++ ['%']) text = true ↔ pattern.map lower <+: text.map lower := by
  induction pattern generalizing text with
  | nil =>
    rw [List.nil_append, likeMatch_percent hescape]
    simp only [List.map_nil, List.nil_prefix, iff_true]
    exact ⟨[], List.nil_suffix, likeMatch_nil.mpr rfl⟩
  | cons p pattern ih =>
    have hp : ¬special escape p := plain p List.mem_cons_self
    have plain : Plain escape pattern := fun x hx => plain x (List.mem_cons_of_mem _ hx)
    rw [List.cons_append, likeMatch_character hp]
    cases text with
    | nil => simp
    | cons x xs =>
      rw [List.map_cons, List.map_cons, List.cons_prefix_cons, ← ih plain]
      simp

theorem likeMatch_infix (hescape : escape ≠ some '%') (plain : Plain escape pattern) :
    likeMatch lower escape ('%' :: pattern ++ ['%']) text = true ↔ pattern.map lower <:+: text.map lower := by
  rw [List.cons_append, likeMatch_percent hescape, List.infix_iff_prefix_suffix]
  constructor
  · rintro ⟨suffix, hsuffix, hmatch⟩
    exact ⟨suffix.map lower, (likeMatch_front hescape plain).mp hmatch, hsuffix.map lower⟩
  · rintro ⟨folded, hprefix, before, hfolded⟩
    have hdrop : folded = (text.drop before.length).map lower := by
      rw [List.map_drop, ← hfolded, List.drop_left]
    rw [hdrop] at hprefix
    exact ⟨text.drop before.length, List.drop_suffix _ _, (likeMatch_front hescape plain).mpr hprefix⟩

/-! A term with one: a text no longer than the term matches its pattern and does not contain it. -/

def literal (escape : Option Char) : List Char → List Char
  | [] => []
  | [p] => if p = '%' then [] else if p = '_' then ['a'] else [p]
  | p :: q :: rest =>
    if some p = escape then q :: literal escape rest
    else if p = '%' then literal escape (q :: rest)
    else (if p = '_' then 'a' else p) :: literal escape (q :: rest)

theorem likeMatch_literal (percent : escape ≠ some '%') (one : escape ≠ some '_') (pattern : List Char) :
    likeMatch lower escape pattern (literal escape pattern) = true := by
  fun_induction literal escape pattern with
  | case1 => rfl
  | case2 => exact likeMatch_singleton.mpr (Or.inl rfl)
  | case3 hp => exact likeMatch_singleton.mpr (Or.inr ⟨_, rfl, Or.inl rfl⟩)
  | case4 p hp hone => exact likeMatch_singleton.mpr (Or.inr ⟨_, rfl, Or.inr rfl⟩)
  | case5 p q rest hp ih => exact (likeMatch_escaped hp).mpr ⟨_, _, rfl, rfl, ih⟩
  | case6 q rest hp ih => exact (likeMatch_percent percent).mpr ⟨_, List.suffix_rfl, ih⟩
  | case7 p q rest hp hpercent ih =>
    by_cases hone : p = '_'
    · subst hone
      exact (likeMatch_one one).mpr ⟨_, _, rfl, ih⟩
    · have hplain : ¬special escape p := by
        rintro (h | h | h)
        · exact hpercent h
        · exact hone h
        · exact hp h
      rw [if_neg hone]
      exact (likeMatch_character hplain).mpr ⟨_, _, rfl, rfl, ih⟩

/-- The special characters have no case: nothing else folds to one of them. -/
def Caseless (lower : Char → Char) (escape : Option Char) : Prop := ∀ x y, special escape x → lower y = lower x → y = x

theorem literal_cons (hp : some p ≠ escape) (rest : List Char) : literal escape (p :: (rest ++ ['%'])) =
    if p = '%' then literal escape (rest ++ ['%']) else (if p = '_' then 'a' else p) :: literal escape (rest ++ ['%']) := by
  cases rest with
  | nil => simp [literal, hp]
  | cons q rest => simp [literal, hp]

theorem plain_of_literal (caseless : Caseless lower escape) (percent : escape ≠ some '%') (pattern : List Char) :
    (literal escape (pattern ++ ['%'])).length ≤ pattern.length ∧
      ((literal escape (pattern ++ ['%'])).map lower = pattern.map lower → Plain escape pattern) := by
  match pattern with
  | [] => exact ⟨Nat.le_refl _, fun _ x hx => absurd hx (by simp)⟩
  | p :: rest =>
    obtain ⟨hlength, hplain⟩ := plain_of_literal caseless percent rest
    by_cases hp : some p = escape
    · match rest with
      | [] =>
        -- the escape takes the `%` behind the term for a character
        have hliteral : literal escape [p, '%'] = ['%'] := by simp [literal, hp]
        rw [List.singleton_append, hliteral]
        refine ⟨Nat.le_refl _, fun h => ?_⟩
        have hsame : '%' = p := caseless p '%' (Or.inr (Or.inr hp)) (List.cons.inj h).1
        exact absurd (hp.symm.trans (congrArg some hsame.symm)) percent
      | q :: rest =>
        have hshort := (plain_of_literal caseless percent rest).1
        have hliteral : literal escape (p :: q :: (rest ++ ['%'])) = q :: literal escape (rest ++ ['%']) := by
          simp [literal, hp]
        rw [List.cons_append, List.cons_append, hliteral]
        refine ⟨by simp only [List.length_cons]; omega, fun h => ?_⟩
        have hlen := congrArg List.length h
        simp only [List.length_map, List.length_cons] at hlen
        omega
    · rw [List.cons_append, literal_cons hp]
      by_cases hpercent : p = '%'
      · rw [if_pos hpercent]
        refine ⟨Nat.le_succ_of_le hlength, fun h => ?_⟩
        have hlen := congrArg List.length h
        simp only [List.length_map, List.length_cons] at hlen
        omega
      · rw [if_neg hpercent]
        refine ⟨Nat.succ_le_succ hlength, fun h => ?_⟩
        obtain ⟨hfirst, hrest⟩ := List.cons.inj h
        have hone : p ≠ '_' := by
          intro hone
          rw [if_pos hone] at hfirst
          exact absurd ((caseless p 'a' (Or.inr (Or.inl hone)) hfirst).trans hone) (by decide)
        intro x hx
        rcases List.mem_cons.mp hx with rfl | hx
        · rintro (h | h | h)
          · exact hpercent h
          · exact hone h
          · exact hp h
        · exact hplain hrest x hx
termination_by pattern.length

theorem literal_not_infix (caseless : Caseless lower escape) (percent : escape ≠ some '%') (special : ¬Plain escape pattern) :
    ¬pattern.map lower <:+: (literal escape (pattern ++ ['%'])).map lower := by
  intro h
  obtain ⟨hlength, hplain⟩ := plain_of_literal caseless percent pattern
  have heq : pattern.map lower = (literal escape (pattern ++ ['%'])).map lower := by
    apply h.eq_of_length
    have hle := h.length_le
    rw [List.length_map, List.length_map] at hle ⊢
    omega
  exact special (hplain heq.symm)

theorem likeMatch_literal_whole (percent : escape ≠ some '%') (one : escape ≠ some '_') :
    likeMatch lower escape ('%' :: pattern ++ ['%']) (literal escape (pattern ++ ['%'])) = true :=
  (likeMatch_percent percent).mpr ⟨_, List.suffix_rfl, likeMatch_literal percent one _⟩

end Matching

section Lists

variable {D : Deployment} {w : World} {search : String}

theorem likeEscape_ne (e : Engine) : e.likeEscape ≠ some '%' ∧ e.likeEscape ≠ some '_' := by
  cases e with
  | postgresql => decide
  | sqlite => decide

theorem ilike_eq_contains {lower : Char → Char} {e : Engine} (plain : Plain e.likeEscape search.toList) (text : String) :
    ilike lower e search text = contains lower search text := by
  rw [Bool.eq_iff_iff, contains, decide_eq_true_eq]
  exact likeMatch_infix (likeEscape_ne e).1 plain

theorem exists_misread {lower : Char → Char} {e : Engine} (caseless : Caseless lower e.likeEscape)
    (special : ¬Plain e.likeEscape search.toList) :
    ∃ text : String, text.length ≤ search.length ∧ ilike lower e search text = true ∧ contains lower search text = false := by
  obtain ⟨percent, one⟩ := likeEscape_ne e
  refine ⟨String.ofList (literal e.likeEscape (search.toList ++ ['%'])), ?_, ?_, ?_⟩
  · rw [String.length_ofList, ← String.length_toList]
    exact (plain_of_literal caseless percent search.toList).1
  · rw [ilike, String.toList_ofList]
    exact likeMatch_literal_whole percent one
  · rw [contains, String.toList_ofList, decide_eq_false_iff_not]
    exact literal_not_infix caseless percent special

/-- All pages of the searched list are the rows of the unsearched one with the term in one of their texts, and the total
counts them on every page that is answered. -/
def FindsSubstring {α : Type} (list : PageParams → App (List α × PaginationMeta)) (texts : α → List String)
    (lower : Char → Char) (search : String) (w : World) : Prop :=
  ∀ params : PageParams, 0 < params.size → ∃ found all, AllPages list { params with search := some search } w found ∧
    AllPages list { params with search := none } w all ∧ found.Perm (all.filter fun r => (texts r).any (contains lower search)) ∧
    ∀ items info, (list { params with search := some search }).answer w = .ok (items, info) → info.total = found.length

def SearchesSubstring (D : Deployment) (search : String) : Prop :=
  ∀ w, (∀ user, FindsSubstring (ProjectService.listProjects D user) (fun p => [p.name]) D.lower search w) ∧
    (∀ projectId, FindsSubstring (TaskService.listForProject D projectId) (fun t => [t.row.title]) D.lower search w) ∧
    FindsSubstring (UserService.listUsers D) (fun u => [u.email, u.fullName]) D.lower search w

theorem findsSubstring_of_rows {ρ α : Type} {l : Listing ρ} {f : ρ → α} {list : PageParams → App (List α × PaginationMeta)}
    {texts : α → List String}
    (stored : ∀ params, (list params).answer w = (l.stored D params w.1).map (Prod.map (List.map f) id))
    (readable : holdsNul D.engine [search] = false)
    (rows : ∀ params : PageParams, l.rows D { params with search := some search } w.1 =
      (l.rows D { params with search := none } w.1).filter fun r => (texts (f r)).any (contains D.lower search)) :
    FindsSubstring list texts D.lower search w := by
  intro params hsize
  have hterms : ∀ search, l.terms { params with search := search } = l.terms params := by
    intro search
    cases l <;> rfl
  have hreadable : l.refuses D { params with search := some search } = false := by
    cases l <;> first | exact readable | rfl
  have hunsearched : l.refuses D { params with search := none } = false := Listing.refuses_of_unsearched rfl
  refine ⟨_, _, (allPages_iff stored (by exact hsize)).mpr ⟨hreadable, rfl⟩,
    (allPages_iff stored (by exact hsize)).mpr ⟨hunsearched, rfl⟩, ?_, ?_⟩
  · rw [hterms, hterms, rows, ← filter_orderBy, List.filter_map]
    rfl
  · intro items info answered
    rw [stored] at answered
    cases hpage : l.stored D { params with search := some search } w.1 with
    | error e => simp [hpage, Except.map] at answered
    | ok page =>
      obtain ⟨-, -, rfl⟩ := Listing.stored_eq_ok.mp hpage
      rw [hpage] at answered
      obtain ⟨-, rfl⟩ := Prod.mk.inj (Except.ok.inj answered)
      rw [List.length_map]
      rfl

theorem projects_stored (user : User) (params : PageParams) : (ProjectService.listProjects D user params).answer w =
    ((Listing.projects user).stored D params w.1).map (Prod.map (List.map id) id) := by
  rw [listProjects_stored, List.map_id_fun, Prod.map_id, Except.map_id]
  rfl

theorem users_stored (params : PageParams) : (UserService.listUsers D params).answer w =
    (Listing.users.stored D params w.1).map (Prod.map (List.map id) id) := by
  rw [listUsers_stored, List.map_id_fun, Prod.map_id, Except.map_id]
  rfl

theorem searchesSubstring_of_plain (nonempty : search ≠ "") (plain : Plain D.engine.likeEscape search.toList)
    (readable : holdsNul D.engine [search] = false) :
    SearchesSubstring D search := by
  intro w
  have hmatch : ∀ text, ilike D.lower D.engine search text = contains D.lower search text := ilike_eq_contains plain
  refine ⟨fun user => ?_, fun projectId => ?_, ?_⟩
  · apply findsSubstring_of_rows (projects_stored user) readable
    intro params
    simp only [Listing.rows, projectRows, ProjectRepository.listQuery, searched, nonempty, if_false, hmatch, id_eq,
      List.any_cons, List.any_nil, Bool.or_false]
  · apply findsSubstring_of_rows (fun params => listForProject_stored D params w projectId) readable
    intro params
    simp only [Listing.rows, TaskRepository.listForProjectQuery, searched, nonempty, if_false, hmatch, Db.loadTask_row,
      List.any_cons, List.any_nil, Bool.or_false]
  · apply findsSubstring_of_rows users_stored readable
    intro params
    simp only [Listing.rows, UserRepository.listQuery, searched, nonempty, if_false, hmatch, id_eq, List.any_cons,
      List.any_nil, Bool.or_false]

def oneProject (name : String) : World :=
  ({ Db.empty with projects := ⟨[⟨32, name, none, .planning, none, none, 16, 0, 0, none⟩], by simp⟩ }, fun _ => none)

theorem readable_of_searchesSubstring (h : SearchesSubstring D search) : holdsNul D.engine [search] = false := by
  obtain ⟨found, all, hfound, -⟩ := (h World.initial).1 seededAdmin {} (by decide)
  exact ((allPages_iff (projects_stored _) (by exact Nat.succ_pos 19)).mp hfound).1

theorem plain_of_searchesSubstring (caseless : Caseless D.lower D.engine.likeEscape) (nonempty : search ≠ "")
    (h : SearchesSubstring D search) : Plain D.engine.likeEscape search.toList := by
  by_contra special
  obtain ⟨text, -, hmatch, hcontains⟩ := exists_misread caseless special
  obtain ⟨found, all, hfound, -, perm, -⟩ := (h (oneProject text)).1 seededAdmin {} (by decide)
  obtain ⟨-, hfound⟩ := (allPages_iff (projects_stored _) (by exact Nat.succ_pos 19)).mp hfound
  let project : Project := ⟨32, text, none, .planning, none, none, 16, 0, 0, none⟩
  have hrow : project ∈ found := by
    rw [hfound, List.map_id, mem_orderBy]
    simp only [Listing.rows, projectRows, ProjectRepository.listQuery, searched, nonempty, if_false]
    exact List.mem_filter.mpr ⟨List.mem_cons_self, hmatch⟩
  have hname := (List.mem_filter.mp (perm.mem_iff.mp hrow)).2
  simp only [List.any_cons, List.any_nil, Bool.or_false] at hname
  exact absurd (hcontains.symm.trans hname) (by decide)

/-- A search means the substring in every state exactly when no character of the term is special in a pattern and the engine
takes the term. -/
theorem searchesSubstring_iff (caseless : Caseless D.lower D.engine.likeEscape) (nonempty : search ≠ "") :
    SearchesSubstring D search ↔ Plain D.engine.likeEscape search.toList ∧ holdsNul D.engine [search] = false :=
  ⟨fun h => ⟨plain_of_searchesSubstring caseless nonempty h, readable_of_searchesSubstring h⟩,
    fun h => searchesSubstring_of_plain nonempty h.1 h.2⟩

theorem likeEscape_sample : Deployment.sample.engine.likeEscape = none := by decide +kernel

theorem caseless_toLower : Caseless Char.toLower Deployment.sample.engine.likeEscape := by
  have hcases : ∀ x y : Char, x = '%' ∨ x = '_' → y.toLower = x → y = x := by
    intro x y hx h
    unfold Char.toLower at h
    split at h
    · next hupper =>
      have hval : (y.val + 32).toNat = x.toNat := congrArg Char.toNat h
      have hlow : 65 ≤ y.val.toNat := hupper.1
      have hhigh : y.val.toNat ≤ 90 := hupper.2
      rw [UInt32.toNat_add] at hval
      rcases hx with rfl | rfl
      · have hx : ('%' : Char).toNat = 37 := rfl
        have h32 : (32 : UInt32).toNat = 32 := rfl
        omega
      · have hx : ('_' : Char).toNat = 95 := rfl
        have h32 : (32 : UInt32).toNat = 32 := rfl
        omega
    · exact h
  intro x y hx h
  rcases hx with rfl | rfl | hx
  · exact hcases _ _ (Or.inl rfl) h
  · exact hcases _ _ (Or.inr rfl) h
  · rw [likeEscape_sample] at hx
    exact absurd hx (by simp)

theorem searchesSubstring_iff_sample : SearchesSubstring .sample "fix" := by
  refine (searchesSubstring_iff caseless_toLower (by decide)).mpr ⟨?_, by decide +kernel⟩
  rw [likeEscape_sample]
  intro x hx
  have hx : x = 'f' ∨ x = 'i' ∨ x = 'x' := by simpa using hx
  rcases hx with rfl | rfl | rfl <;> simp [special]

/-- The project P is found under an underscore, which its name does not contain. -/
theorem underscore_found : Reachable .sample (playFrom .sample World.initial oneTask) ∧
    ¬FindsSubstring (ProjectService.listProjects .sample seededAdmin) (fun p => [p.name]) Deployment.sample.lower "_"
      (playFrom .sample World.initial oneTask) := by
  refine ⟨reachable_of_freshRun (by decide +kernel), fun h => ?_⟩
  obtain ⟨found, all, hfound, hall, perm, -⟩ := h {} (by decide)
  obtain ⟨-, hfound⟩ := (allPages_iff (projects_stored _) (by exact Nat.succ_pos 19)).mp hfound
  obtain ⟨-, hall⟩ := (allPages_iff (projects_stored _) (by exact Nat.succ_pos 19)).mp hall
  rw [hfound, hall] at perm
  exact absurd perm.length_eq (by decide +kernel)

end Lists

end ProjectManagement
