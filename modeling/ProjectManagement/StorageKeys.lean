import ProjectManagement.Core.Database
import ProjectManagement.Infrastructure.Storage
import ProjectManagement.Library.Text
import Mathlib.Data.List.TakeWhile

/-! The keys of stored files: no client-supplied name leads out of the upload directory or to the key of another file. -/

namespace ProjectManagement

open Library

namespace Path

theorem not_mem_of_mem_parts {s part : List Char} (h : part ∈ parts s) : '/' ∉ part :=
  not_mem_of_mem_splitOn (List.mem_filter.mp h).1

theorem slash_not_mem_name (s : List Char) : '/' ∉ name s := by
  have hname : name s = (parts s).getLast?.getD [] := rfl
  rw [hname]
  cases h : (parts s).getLast? with
  | none => simp
  | some part => exact not_mem_of_mem_parts (List.mem_of_getLast? h)

theorem slash_not_mem_suffix (s : List Char) : '/' ∉ suffix s := by
  intro h
  simp only [suffix] at h
  split at h
  · split at h
    · exact slash_not_mem_name s (List.mem_of_mem_drop h)
    · simp at h
  · simp at h

theorem parts_append (s t : List Char) : parts (s ++ '/' :: t) = parts s ++ parts t := by
  simp only [parts]
  rw [List.splitOn_append_cons_self, List.filter_append]

theorem parts_of_component {key : List Char} (slash : '/' ∉ key) (empty : key ≠ []) (dot : key ≠ ['.']) : parts key = [key] := by
  simp [parts, List.splitOn_eq_singleton slash, empty, dot]

theorem parts_join {dir key : List Char} (slash : '/' ∉ key) : parts (join dir key) = parts dir ++ parts key := by
  have hkey : key.head? ≠ some '/' := fun h => slash (List.mem_of_head? h)
  rw [join, if_neg hkey]
  split
  · next h =>
    rcases h with rfl | h
    · rfl
    · obtain ⟨dir, rfl⟩ := List.getLast?_eq_some_iff.mp h
      have hdir : parts (dir ++ ['/']) = parts dir ++ parts [] := parts_append dir []
      have hempty : parts [] = [] := rfl
      rw [List.append_assoc, List.singleton_append, parts_append, hdir, hempty, List.append_nil]
  · exact parts_append dir key

theorem root_join {dir key : List Char} (slash : '/' ∉ key) : root (join dir key) = root dir := by
  have hkey : key.head? ≠ some '/' := fun h => slash (List.mem_of_head? h)
  have hskip : key.takeWhile (· = '/') = [] := by
    cases key with
    | nil => rfl
    | cons a key => exact List.takeWhile_cons_of_neg (by simpa using hkey)
  rw [join, if_neg hkey]
  by_cases hdir : ∀ a ∈ dir, a = '/'
  · have hall : ∀ a ∈ dir, decide (a = '/') = true := by simpa using hdir
    have hend : dir = [] ∨ dir.getLast? = some '/' := by
      cases h : dir.getLast? with
      | none => exact Or.inl (List.getLast?_eq_none_iff.mp h)
      | some a => exact Or.inr (congrArg some (hdir a (List.mem_of_getLast? h)))
    rw [if_pos hend, root, root, List.takeWhile_append_of_pos hall, hskip, List.append_nil, List.takeWhile_eq_self_iff.mpr hall]
  · have hstop : ∀ t : List Char, (dir ++ t).takeWhile (· = '/') = dir.takeWhile (· = '/') := by
      intro t
      rw [List.takeWhile_append, if_neg]
      intro hlength
      have hself : dir.takeWhile (· = '/') = dir := (List.takeWhile_prefix _).eq_of_length hlength
      exact hdir (by simpa using List.takeWhile_eq_self_iff.mp hself)
    split
    · rw [root, root, hstop]
    · rw [root, root, hstop]

end Path

/-! The hexadecimal digits of a UUID. -/

theorem eq_of_digits {n a b : ℕ} (ha : a < 16 ^ n) (hb : b < 16 ^ n) (h : ∀ k < n, a / 16 ^ k % 16 = b / 16 ^ k % 16) :
    a = b := by
  induction n generalizing a b with
  | zero =>
    rw [Nat.pow_zero] at ha hb
    omega
  | succ n ih =>
    have hlast : a % 16 = b % 16 := by simpa using h 0 (Nat.zero_lt_succ n)
    have hrest : a / 16 = b / 16 := by
      apply ih
      · omega
      · omega
      · intro k hk
        have hdigit := h (k + 1) (Nat.succ_lt_succ hk)
        rwa [Nat.pow_succ', ← Nat.div_div_eq_div_mul, ← Nat.div_div_eq_div_mul] at hdigit
    omega

theorem hexDigit_inj {m n : ℕ} (hm : m < 16) (hn : n < 16) (h : hexDigit m = hexDigit n) : m = n := by
  have hall : ∀ a < 16, ∀ b < 16, hexDigit a = hexDigit b → a = b := by decide
  exact hall m hm n hn h

theorem hexDigit_mem {n : ℕ} (h : n < 16) : hexDigit n ∈ "0123456789abcdef".toList := by
  have hall : ∀ n < 16, hexDigit n ∈ "0123456789abcdef".toList := by decide
  exact hall n h

namespace Uuid

theorem length_hex (u : Uuid) : u.hex.length = 32 := by simp [hex]

theorem mem_hex {u : Uuid} {x : Char} (h : x ∈ u.hex) : x ∈ "0123456789abcdef".toList := by
  obtain ⟨k, -, rfl⟩ := List.mem_map.mp h
  exact hexDigit_mem (Nat.mod_lt _ (by decide))

theorem hex_injective : Function.Injective hex := by
  intro u v h
  apply BitVec.eq_of_toNat_eq
  apply eq_of_digits (n := 32) u.isLt v.isLt
  intro k hk
  have hdigit := List.map_inj_left.mp h (31 - k) (List.mem_range.mpr (by omega))
  rw [show 31 - (31 - k) = k by omega] at hdigit
  exact hexDigit_inj (Nat.mod_lt _ (by decide)) (Nat.mod_lt _ (by decide)) hdigit

end Uuid

variable {uuid4 : Uuid} {filename : String}

theorem toList_keyFor : (keyFor uuid4 filename).toList = uuid4.hex ++ (Path.suffix filename.toList).take 16 :=
  String.toList_ofList

theorem slash_not_mem_keyFor : '/' ∉ (keyFor uuid4 filename).toList := by
  rw [toList_keyFor, List.mem_append]
  rintro (h | h)
  · exact absurd (Uuid.mem_hex h) (by decide)
  · exact Path.slash_not_mem_suffix _ (List.mem_of_mem_take h)

theorem length_keyFor : 32 ≤ (keyFor uuid4 filename).length ∧ (keyFor uuid4 filename).length ≤ 48 := by
  rw [← String.length_toList, toList_keyFor, List.length_append, Uuid.length_hex, List.length_take]
  omega

/-- A key names a direct child of whatever directory it is joined to, and its column has room for it. -/
structure Confined (uuid4 : Uuid) (key : String) : Prop where
  digits : uuid4.hex.length = 32 ∧ ∀ x ∈ uuid4.hex, x ∈ "0123456789abcdef".toList
  suffix : ∃ suffix, key.toList = uuid4.hex ++ suffix ∧ suffix.length ≤ 16 ∧ '/' ∉ suffix
  child : ∀ dir, Path.root (Path.join dir key.toList) = Path.root dir ∧
    Path.parts (Path.join dir key.toList) = Path.parts dir ++ [key.toList]
  name : key ≠ "." ∧ key ≠ ".."
  fits : ∀ e, tooLong e [key] = false

theorem keyFor_confined (uuid4 : Uuid) (filename : String) : Confined uuid4 (keyFor uuid4 filename) := by
  have hlength := @length_keyFor uuid4 filename
  have hname : ∀ short : String, short.length < 32 → keyFor uuid4 filename ≠ short := by
    rintro short hshort rfl
    omega
  constructor
  · exact ⟨uuid4.length_hex, fun x => Uuid.mem_hex⟩
  · refine ⟨(Path.suffix filename.toList).take 16, toList_keyFor, ?_, fun h => ?_⟩
    · rw [List.length_take]
      omega
    · exact Path.slash_not_mem_suffix _ (List.mem_of_mem_take h)
  · intro dir
    refine ⟨Path.root_join slash_not_mem_keyFor, ?_⟩
    rw [Path.parts_join slash_not_mem_keyFor, Path.parts_of_component slash_not_mem_keyFor]
    · intro h
      exact hname "" (by decide) (String.toList_inj.mp h)
    · intro h
      exact hname "." (by decide) (String.toList_inj.mp h)
  · exact ⟨hname "." (by decide), hname ".." (by decide)⟩
  · intro e
    simp only [tooLong, List.any_cons, List.any_nil, Bool.or_false, Bool.and_eq_false_iff, decide_eq_false_iff_not]
    exact Or.inr (by omega)

/-- Keys stay inside the upload directory and are told apart by their UUIDs, whatever the clients call their files. -/
theorem storage_keys_safe : (∀ uuid4 filename, Confined uuid4 (keyFor uuid4 filename)) ∧
    ∀ u v, u ≠ v → ∀ filename filename', keyFor u filename ≠ keyFor v filename' := by
  refine ⟨keyFor_confined, fun u v hne filename filename' h => hne ?_⟩
  have hkeys : u.hex ++ (Path.suffix filename.toList).take 16 = v.hex ++ (Path.suffix filename'.toList).take 16 := by
    rw [← toList_keyFor, ← toList_keyFor, h]
  apply Uuid.hex_injective
  exact (List.append_inj hkeys (by rw [Uuid.length_hex, Uuid.length_hex])).1

end ProjectManagement
