import ProjectManagement.Core.Config
import Mathlib.Data.List.TakeWhile

/-!
The database URL: libpq calls its TLS parameter `sslmode` and asyncpg calls it `ssl`. The settings rewrite the text of the URL;
what they are to do is said here in terms of its parts.
-/

namespace ProjectManagement

open Library

namespace DatabaseUrl

inductive Scheme
  | postgres | postgresql | asyncpg
  deriving DecidableEq, Repr

def Scheme.text : Scheme → String
  | postgres => "postgres://"
  | postgresql => "postgresql://"
  | asyncpg => "postgresql+asyncpg://"

/-! The parts of what follows the scheme. -/

/-- Credentials, host and path: everything in front of the query. -/
def base (rest : List Char) : List Char := rest.takeWhile (· ≠ '?')

def parameters (rest : List Char) : List (List Char) :=
  match rest.dropWhile (· ≠ '?') with
  | [] => []
  | _ :: query => query.splitOn '&'

def name (parameter : List Char) : List Char := parameter.takeWhile (· ≠ '=')

def value (parameter : List Char) : List Char := (parameter.dropWhile (· ≠ '=')).drop 1

def hexValue (c : Char) : Option ℕ :=
  if '0' ≤ c ∧ c ≤ '9' then some (c.toNat - '0'.toNat)
  else if 'a' ≤ c ∧ c ≤ 'f' then some (c.toNat - 'a'.toNat + 10)
  else if 'A' ≤ c ∧ c ≤ 'F' then some (c.toNat - 'A'.toNat + 10)
  else none

/-- The bytes a name stands for: `+` is a blank, and `%` with two digits any byte. -/
def unquotePlus : List Char → List UInt8
  | [] => []
  | '+' :: rest => 0x20 :: unquotePlus rest
  | '%' :: a :: b :: rest =>
    match hexValue a, hexValue b with
    | some high, some low => UInt8.ofNat (16 * high + low) :: unquotePlus rest
    | _, _ => 0x25 :: unquotePlus (a :: b :: rest)
  | c :: rest => String.utf8EncodeChar c ++ unquotePlus rest

/-- A driver reads the parameter as `sslmode`. -/
def Sslmode (parameter : List Char) : Prop := '=' ∈ parameter ∧ unquotePlus (name parameter) = unquotePlus "sslmode".toList

instance (parameter : List Char) : Decidable (Sslmode parameter) := inferInstanceAs (Decidable (_ ∧ _))

def translated (parameter : List Char) : List Char :=
  if Sslmode parameter then "ssl=".toList ++ value parameter else parameter

/-- Every `sslmode` has become an `ssl`, and nothing else has changed. -/
structure Rewritten (rest rest' : List Char) : Prop where
  accepted : ∀ p ∈ parameters rest', ¬Sslmode p
  values : ∀ p ∈ parameters rest, Sslmode p → "ssl=".toList ++ value p ∈ parameters rest'
  base : base rest' = base rest
  parameters : parameters rest' = (parameters rest).map translated

/-- The settings have the URL of the driver, rewritten once and for all. -/
def Normalised (rest : List Char) (s : FullSettings) : Prop :=
  (∃ rest', s.databaseUrl.toList = "postgresql+asyncpg://".toList ++ rest' ∧ Rewritten rest rest') ∧
    s.normalizeAndValidate = .ok s

/-- Where replacing text does what it is to do: nothing in front of the query and nothing inside a parameter looks like the start
of a parameter, and the name is not written with escapes. A URL that names the driver already is not rewritten at all. -/
def Translatable (rest : List Char) : Scheme → Prop
  | .asyncpg => ∀ p ∈ parameters rest, ¬Sslmode p
  | .postgres | .postgresql => ¬"&sslmode=".toList <:+: base rest ∧
    ∀ p ∈ parameters rest, ¬"?sslmode=".toList <:+: p ∧ (Sslmode p → "sslmode=".toList <+: p)

instance (rest : List Char) : ∀ scheme, Decidable (Translatable rest scheme)
  | .asyncpg => inferInstanceAs (Decidable (∀ p ∈ parameters rest, ¬Sslmode p))
  | .postgres | .postgresql => inferInstanceAs (Decidable (_ ∧ ∀ p ∈ parameters rest, _ ∧ (Sslmode p → _)))

variable {rest before query p : List Char}

theorem split_rest (rest : List Char) : '?' ∉ rest ∨ ∃ before query, rest = before ++ '?' :: query ∧ '?' ∉ before := by
  by_cases h : '?' ∈ rest
  · exact Or.inr (List.eq_append_cons_of_mem h)
  · exact Or.inl h

theorem skips {c : Char} (h : c ∉ rest) : ∀ x ∈ rest, decide (x ≠ c) = true := by
  intro x hx
  have hne : x ≠ c := fun he => h (he ▸ hx)
  simpa using hne

theorem base_of_not_mem (h : '?' ∉ rest) : base rest = rest := List.takeWhile_eq_self_iff.mpr (skips h)

theorem parameters_of_not_mem (h : '?' ∉ rest) : parameters rest = [] := by
  rw [parameters, List.dropWhile_eq_nil_iff.mpr (skips h)]

theorem base_append (h : '?' ∉ before) : base (before ++ '?' :: query) = before := by
  rw [base, List.takeWhile_append_of_pos (skips h), List.takeWhile_cons_of_neg (by simp), List.append_nil]

theorem parameters_append (h : '?' ∉ before) : parameters (before ++ '?' :: query) = query.splitOn '&' := by
  rw [parameters, List.dropWhile_append_of_pos (skips h), List.dropWhile_cons_of_neg (by simp)]

/-! The two replacements. -/

def sslmode : List Char := "sslmode=".toList

def ssl : List Char := "ssl=".toList

def first (s : List Char) : List Char := replaceAll ('?' :: sslmode) ('?' :: ssl) s

def second (s : List Char) : List Char := replaceAll ('&' :: sslmode) ('&' :: ssl) s

def replaced (p : List Char) : List Char :=
  if sslmode.isPrefixOf p then ssl ++ first (p.drop sslmode.length) else first p

theorem replaced_named (v : List Char) : replaced (sslmode ++ v) = ssl ++ first v := by
  have hstart : sslmode.isPrefixOf (sslmode ++ v) = true := List.isPrefixOf_iff_prefix.mpr (List.prefix_append _ _)
  rw [replaced, if_pos hstart, List.drop_left]

theorem replaced_other (h : ¬sslmode <+: p) : replaced p = first p := by
  rw [replaced, if_neg]
  exact fun hp => h (List.isPrefixOf_iff_prefix.mp hp)

theorem first_parameter (p : List Char) : first ('?' :: p) = '?' :: replaced p := by
  by_cases h : sslmode <+: p
  · obtain ⟨v, rfl⟩ := h
    rw [replaced_named]
    exact replaceAll_found
  · rw [replaced_other h]
    refine replaceAll_cons fun hp => h ?_
    rw [List.cons_prefix_cons] at hp
    exact hp.2

theorem first_translated (p : List Char) :
    (if sslmode.isPrefixOf (first p) then ssl ++ (first p).drop sslmode.length else first p) = replaced p := by
  have hsame : sslmode <+: first p ↔ sslmode <+: p := prefix_replaceAll_iff (by decide)
  by_cases h : sslmode <+: p
  · rw [if_pos (List.isPrefixOf_iff_prefix.mpr (hsame.mpr h))]
    obtain ⟨v, rfl⟩ := h
    have happend : first (sslmode ++ v) = sslmode ++ first v := replaceAll_append (by decide)
    rw [happend, List.drop_left, replaced_named]
  · have hfirst : ¬sslmode.isPrefixOf (first p) = true := fun hp => h (hsame.mp (List.isPrefixOf_iff_prefix.mp hp))
    rw [if_neg hfirst, replaced_other h]

theorem not_mem_replaced (h : '&' ∉ p) : '&' ∉ replaced p := by
  have hfirst : ∀ s : List Char, '&' ∉ s → '&' ∉ first s := fun s => not_mem_replaceAll (by decide)
  unfold replaced
  split
  · rw [List.mem_append, not_or]
    exact ⟨by decide, hfirst _ fun hmem => h (List.mem_of_mem_drop hmem)⟩
  · exact hfirst p h

theorem query_replaced (query : List Char) :
    second (first ('?' :: query)) = '?' :: ['&'].intercalate ((query.splitOn '&').map replaced) := by
  obtain ⟨p, pieces, hsplit⟩ := List.exists_cons_of_ne_nil (List.splitOn_ne_nil '&' query)
  have hpieces : ∀ piece ∈ p :: pieces, '&' ∉ piece := fun piece h => not_mem_of_mem_splitOn (hsplit ▸ h)
  have hquery : query = p ++ pieces.flatMap ('&' :: ·) := by
    rw [← intercalate_cons, ← hsplit, List.intercalate_splitOn]
  have hfirst : first ('?' :: query) = '?' :: replaced p ++ (pieces.map first).flatMap ('&' :: ·) := by
    rw [← first_parameter, hquery, ← List.cons_append]
    exact replaceAll_append_flatMap (by decide)
  have hhead : '&' ∉ '?' :: replaced p := by
    rw [List.mem_cons, not_or]
    exact ⟨by decide, not_mem_replaced (hpieces p List.mem_cons_self)⟩
  have hrest : ∀ piece ∈ pieces.map first, '&' ∉ piece := by
    intro piece h
    obtain ⟨piece, hpiece, rfl⟩ := List.mem_map.mp h
    exact not_mem_replaceAll (by decide) (hpieces piece (List.mem_cons_of_mem _ hpiece))
  have hsecond : second ((pieces.map first).flatMap ('&' :: ·)) = (pieces.map replaced).flatMap ('&' :: ·) := by
    refine (replaceAll_flatMap (by decide) hrest).trans ?_
    rw [List.flatMap_map, List.flatMap_map]
    congr 1
    funext piece
    exact congrArg ('&' :: ·) (first_translated piece)
  have hjoined : second (first ('?' :: query)) = '?' :: replaced p ++ second ((pieces.map first).flatMap ('&' :: ·)) := by
    rw [hfirst]
    exact replaceAll_append hhead
  rw [hjoined, hsecond, hsplit, List.map_cons, intercalate_cons, List.cons_append]

theorem rest_replaced (rest : List Char) : base (second (first rest)) = second (base rest) ∧
    parameters (second (first rest)) = (parameters rest).map replaced := by
  rcases split_rest rest with h | ⟨before, query, rfl, h⟩
  · have hfirst : first rest = rest := replaceAll_of_not_mem h
    have hsecond : '?' ∉ second rest := not_mem_replaceAll (by decide) h
    rw [hfirst, base_of_not_mem hsecond, parameters_of_not_mem hsecond, base_of_not_mem h, parameters_of_not_mem h]
    exact ⟨rfl, rfl⟩
  · have hfirst : first (before ++ '?' :: query) = before ++ '?' :: replaced query := by
      rw [← first_parameter]
      exact replaceAll_append h
    have hsecond : ∀ xs, second (xs ++ '?' :: replaced query) = second xs ++ '?' :: second (replaced query) :=
      fun xs => replaceAll_append_cons (by decide)
    have hnil : second [] = [] := replaceAll_nil
    have hskip : second ('?' :: replaced query) = '?' :: second (replaced query) := by
      have hempty := hsecond []
      rwa [hnil, List.nil_append, List.nil_append] at hempty
    have hquery : second (replaced query) = ['&'].intercalate ((query.splitOn '&').map replaced) := by
      have hall := query_replaced query
      rw [first_parameter] at hall
      exact (List.cons.inj (hskip.symm.trans hall)).2
    have hbefore : '?' ∉ second before := not_mem_replaceAll (by decide) h
    have hpieces : ∀ p ∈ (query.splitOn '&').map replaced, '&' ∉ p := by
      intro p hp
      obtain ⟨p, hmem, rfl⟩ := List.mem_map.mp hp
      exact not_mem_replaced (not_mem_of_mem_splitOn hmem)
    rw [hfirst, hsecond, base_append hbefore, parameters_append hbefore, base_append h, parameters_append h, hquery]
    exact ⟨rfl, List.splitOn_intercalate '&' hpieces (by simp)⟩

/-! When the replacements are the translation. -/

theorem first_eq_self_iff {s : List Char} : first s = s ↔ ¬ '?' :: sslmode <:+: s := replaceAll_eq_self_iff (by decide)

theorem second_eq_self_iff {s : List Char} : second s = s ↔ ¬ '&' :: sslmode <:+: s := replaceAll_eq_self_iff (by decide)

theorem name_append {n v : List Char} (h : '=' ∉ n) : name (n ++ '=' :: v) = n := by
  rw [name, List.takeWhile_append_of_pos (skips h), List.takeWhile_cons_of_neg (by simp), List.append_nil]

theorem sslmode_named (v : List Char) : Sslmode (sslmode ++ v) ∧ value (sslmode ++ v) = v := by
  have hname : name ("sslmode".toList ++ '=' :: v) = "sslmode".toList := name_append (by decide)
  exact ⟨⟨List.mem_append_left _ (by decide), congrArg unquotePlus hname⟩, rfl⟩

theorem not_sslmode_ssl (v : List Char) : ¬Sslmode (ssl ++ v) := by
  have hname : name ("ssl".toList ++ '=' :: v) = "ssl".toList := name_append (by decide)
  rintro ⟨-, h⟩
  have hssl : unquotePlus "ssl".toList = unquotePlus "sslmode".toList := (congrArg unquotePlus hname).symm.trans h
  exact absurd hssl (by decide)

theorem not_sslmode_translated (p : List Char) : ¬Sslmode (translated p) := by
  unfold translated
  split
  · exact not_sslmode_ssl _
  · assumption

theorem replaced_eq_translated_iff : replaced p = translated p ↔
    ¬ '?' :: sslmode <:+: p ∧ (Sslmode p → sslmode <+: p) := by
  by_cases h : sslmode <+: p
  · obtain ⟨v, rfl⟩ := h
    have hfirst : first (sslmode ++ v) = sslmode ++ first v := replaceAll_append (by decide)
    obtain ⟨hnamed, hvalue⟩ := sslmode_named v
    have htranslated : translated (sslmode ++ v) = ssl ++ v := by
      rw [translated, if_pos hnamed, hvalue]
      rfl
    rw [replaced_named, htranslated, List.append_cancel_left_eq, ← first_eq_self_iff, hfirst, List.append_cancel_left_eq]
    exact ⟨fun hv => ⟨hv, fun _ => List.prefix_append _ _⟩, fun hv => hv.1⟩
  · rw [replaced_other h, ← first_eq_self_iff]
    by_cases hnamed : Sslmode p
    · -- an escaped name is not replaced, and a parameter that begins with `ssl=` has another name
      have hdiffers : first p ≠ translated p := by
        intro heq
        rw [translated, if_pos hnamed] at heq
        have hssl : ssl <+: p := by
          have hfirst : ssl <+: first p := by
            rw [heq]
            exact List.prefix_append _ _
          exact (prefix_replaceAll_iff (by decide)).mp hfirst
        obtain ⟨v, rfl⟩ := hssl
        exact not_sslmode_ssl v hnamed
      simp only [hdiffers, h, hnamed, forall_const, and_false]
    · rw [translated, if_neg hnamed]
      simp only [hnamed, false_implies, and_true]

theorem rewritten_iff (rest : List Char) : Rewritten rest (second (first rest)) ↔
    ¬ '&' :: sslmode <:+: base rest ∧ ∀ p ∈ parameters rest, ¬ '?' :: sslmode <:+: p ∧ (Sslmode p → sslmode <+: p) := by
  obtain ⟨hbase, hparameters⟩ := rest_replaced rest
  have hall : (parameters rest).map replaced = (parameters rest).map translated ↔
      ∀ p ∈ parameters rest, ¬ '?' :: sslmode <:+: p ∧ (Sslmode p → sslmode <+: p) := by
    rw [List.map_inj_left]
    exact forall₂_congr fun p _ => replaced_eq_translated_iff
  rw [← second_eq_self_iff, ← hall]
  constructor
  · intro h
    exact ⟨hbase.symm.trans h.base, hparameters.symm.trans h.parameters⟩
  · rintro ⟨hsecond, htranslated⟩
    have hparameters' := hparameters.trans htranslated
    constructor
    · intro p hp
      rw [hparameters'] at hp
      obtain ⟨p, -, rfl⟩ := List.mem_map.mp hp
      exact not_sslmode_translated p
    · intro p hp hnamed
      rw [hparameters']
      refine List.mem_map.mpr ⟨p, hp, ?_⟩
      rw [translated, if_pos hnamed]
    · exact hbase.trans hsecond
    · exact hparameters'

/-! The settings. -/

def driver : List Char := "postgresql+asyncpg://".toList

variable {url : String} {s s' : FullSettings}

theorem toList_replace (url old new : String) : (replace url old new).toList = replaceAll old.toList new.toList url.toList :=
  String.toList_ofList

theorem toList_replaceOnce (url old new : String) :
    (replaceOnce url old new).toList = replaceFirst old.toList new.toList url.toList := String.toList_ofList

theorem startsWith_iff {start : String} : startsWith url start = true ↔ start.toList <+: url.toList := List.isPrefixOf_iff_prefix

theorem startsWith_eq {start : String} {text : List Char} {b : Bool} (h : url.toList = text) (hb : start.toList.isPrefixOf text = b) :
    startsWith url start = b := by
  rw [startsWith, h, hb]

theorem normalizeUrl_driver (h : url.toList = driver ++ rest) : normalizeUrl url = url := by
  have hpostgres : startsWith url "postgres://" = false := startsWith_eq h rfl
  have hpostgresql : startsWith url "postgresql://" = false := startsWith_eq h rfl
  simp [normalizeUrl, hpostgres, hpostgresql]

theorem toList_replaced (h : url.toList = driver ++ rest) :
    (replace (replace url "?sslmode=" "?ssl=") "&sslmode=" "&ssl=").toList = driver ++ second (first rest) := by
  have hfirst : first (driver ++ rest) = driver ++ first rest := replaceAll_append (by decide)
  have hsecond : second (driver ++ first rest) = driver ++ second (first rest) := replaceAll_append (by decide)
  rw [toList_replace, toList_replace, h, ← hsecond, ← hfirst]
  rfl

theorem normalizeUrl_postgres (h : url.toList = "postgres://".toList ++ rest) :
    (normalizeUrl url).toList = driver ++ second (first rest) := by
  have hpostgres : startsWith url "postgres://" = true := startsWith_iff.mpr ⟨rest, h.symm⟩
  have hasyncpg : startsWith url "postgresql+asyncpg://" = false := startsWith_eq h rfl
  have hasyncpg' : startsWith url "postgres+asyncpg://" = false := startsWith_eq h rfl
  simp only [normalizeUrl, hpostgres, hasyncpg, hasyncpg', Bool.true_or, Bool.not_false, Bool.and_self, if_true]
  apply toList_replaced
  rw [toList_replaceOnce, h]
  exact replaceFirst_found

theorem normalizeUrl_postgresql (h : url.toList = "postgresql://".toList ++ rest) :
    (normalizeUrl url).toList = driver ++ second (first rest) := by
  have hpostgresql : startsWith url "postgresql://" = true := startsWith_iff.mpr ⟨rest, h.symm⟩
  have hpostgres : startsWith url "postgres://" = false := startsWith_eq h rfl
  have hasyncpg : startsWith url "postgresql+asyncpg://" = false := startsWith_eq h rfl
  have hasyncpg' : startsWith url "postgres+asyncpg://" = false := startsWith_eq h rfl
  simp only [normalizeUrl, hpostgres, hpostgresql, hasyncpg, hasyncpg', Bool.or_true, Bool.not_false, Bool.and_self, if_true,
    Bool.false_eq_true, if_false]
  apply toList_replaced
  rw [toList_replaceOnce, h]
  exact replaceFirst_found

theorem normalizeAndValidate_ok (h : s.normalizeAndValidate = .ok s') :
    s' = { s with databaseUrl := normalizeUrl s.databaseUrl } := by
  simp only [FullSettings.normalizeAndValidate] at h
  split at h
  · split at h
    · simp at h
    · split at h
      · simp at h
      · split at h
        · simp at h
        · exact (Except.ok.inj h).symm
  · exact (Except.ok.inj h).symm

theorem normalizeAndValidate_again (h : s.normalizeAndValidate = .ok s') (hurl : normalizeUrl s'.databaseUrl = s'.databaseUrl) :
    s'.normalizeAndValidate = .ok s' := by
  have hs' := normalizeAndValidate_ok h
  have hsame : s'.normalizeAndValidate = s.normalizeAndValidate := by
    simp only [FullSettings.normalizeAndValidate, hurl]
    subst hs'
    rfl
  rw [hsame, h]

end DatabaseUrl

open DatabaseUrl

/-- The settings normalise a PostgreSQL URL exactly when its scheme does not name the driver already, no text in front of the
query or inside a parameter looks like an `sslmode` parameter, and none is written with escapes. -/
theorem database_url_iff (scheme : Scheme) (rest : List Char) (s s' : FullSettings)
    (url : s.databaseUrl.toList = scheme.text.toList ++ rest) (ok : s.normalizeAndValidate = .ok s') :
    Normalised rest s' ↔ Translatable rest scheme := by
  have hs' := normalizeAndValidate_ok ok
  have hiff : ∀ rest', s'.databaseUrl.toList = driver ++ rest' → (Normalised rest s' ↔ Rewritten rest rest') := by
    intro rest' hurl
    constructor
    · rintro ⟨⟨rest'', hdriver, hrewritten⟩, -⟩
      have hrest : driver ++ rest' = driver ++ rest'' := hurl.symm.trans hdriver
      rwa [List.append_cancel_left hrest]
    · intro hrewritten
      exact ⟨⟨rest', hurl, hrewritten⟩, normalizeAndValidate_again ok (normalizeUrl_driver hurl)⟩
  cases scheme with
  | postgres =>
    have hurl : s'.databaseUrl.toList = driver ++ second (first rest) := by
      rw [hs']
      exact normalizeUrl_postgres url
    exact (hiff _ hurl).trans (rewritten_iff rest)
  | postgresql =>
    have hurl : s'.databaseUrl.toList = driver ++ second (first rest) := by
      rw [hs']
      exact normalizeUrl_postgresql url
    exact (hiff _ hurl).trans (rewritten_iff rest)
  | asyncpg =>
    have hurl : s'.databaseUrl.toList = driver ++ rest := by
      rw [hs']
      exact (congrArg String.toList (normalizeUrl_driver url)).trans url
    refine (hiff _ hurl).trans ⟨fun h => h.accepted, fun h => ⟨h, fun p hp hnamed => absurd hnamed (h p hp), rfl, ?_⟩⟩
    have hsame : ∀ p ∈ parameters rest, translated p = p := fun p hp => if_neg (h p hp)
    rw [List.map_congr_left hsame, List.map_id']

theorem database_url_iff_sample :
    Normalised "u:p@h/d?a=b&sslmode=require".toList { databaseUrl := normalizeUrl "postgres://u:p@h/d?a=b&sslmode=require" } :=
  (database_url_iff .postgres "u:p@h/d?a=b&sslmode=require".toList { databaseUrl := "postgres://u:p@h/d?a=b&sslmode=require" }
    { databaseUrl := normalizeUrl "postgres://u:p@h/d?a=b&sslmode=require" } (by decide) rfl).mpr (by decide +kernel)

/-- The URL names the driver, and keeps the parameter the driver rejects. -/
theorem driver_url_keeps_sslmode : ∃ s', ({ databaseUrl := "postgresql+asyncpg://u:p@h/d?sslmode=require" } :
    FullSettings).normalizeAndValidate = .ok s' ∧ ¬Normalised "u:p@h/d?sslmode=require".toList s' := by
  have hurl : normalizeUrl "postgresql+asyncpg://u:p@h/d?sslmode=require" = "postgresql+asyncpg://u:p@h/d?sslmode=require" :=
    @normalizeUrl_driver "u:p@h/d?sslmode=require".toList _ (by decide)
  refine ⟨{ databaseUrl := "postgresql+asyncpg://u:p@h/d?sslmode=require" }, ?_, ?_⟩
  · simp only [FullSettings.normalizeAndValidate, hurl]
    rfl
  · rintro ⟨⟨rest', hdriver, hrewritten⟩, -⟩
    have hrest : driver ++ "u:p@h/d?sslmode=require".toList = driver ++ rest' := hdriver
    rw [← List.append_cancel_left hrest] at hrewritten
    exact hrewritten.accepted "sslmode=require".toList (by decide) (by decide)

end ProjectManagement
