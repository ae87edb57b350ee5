import ProjectManagement.System
import Mathlib

/-!
The password policy against the hash. The policy counts characters, up to 128; bcrypt reads 72 bytes, and the two versions the
project admits part over the rest.
-/

namespace ProjectManagement

open Library

def bcryptLimit : ℕ := 72

def firstBytes (password : ByteArray) : ByteArray := password.extract 0 bcryptLimit

/-- bcrypt 4: no two passwords with different first bytes collide, and what follows these bytes is ignored. -/
structure Bcrypt.IgnoresRest (b : Bcrypt) : Prop where
  hashes : ∀ password salt, ∃ hashed, b.hashpw password salt = some hashed
  checks : ∀ password salt hashed, b.hashpw password salt = some hashed →
    ∀ other, b.checkpw other hashed.toUTF8 = some (decide (firstBytes other = firstBytes password))

/-- bcrypt 5: a longer password is a `ValueError`, in both functions. -/
structure Bcrypt.RaisesBeyond (b : Bcrypt) : Prop where
  hashes : ∀ password salt, (b.hashpw password salt).isSome = true ↔ password.size ≤ bcryptLimit
  checks : ∀ password salt hashed, b.hashpw password salt = some hashed →
    ∀ other, b.checkpw other hashed.toUTF8 = if other.size ≤ bcryptLimit then some (decide (other = password)) else none

def Accepted (D : Deployment) (password : String) : Prop := passwordProblems D password = []

def RealPassword (D : Deployment) (c : Call) (w : World) (p q : String) : Prop :=
  ∃ hashed, (hashPassword D c p).answer w = .ok hashed ∧ (verifyPassword D q hashed = true ↔ q = p)

variable {D : Deployment} {c : Call} {w : World} {p q : String}

theorem hashPassword_answer {hashed : String} :
    (hashPassword D c p).answer w = .ok hashed ↔ D.bcrypt.hashpw p.toUTF8 c.fresh.salt = some hashed := by
  rw [Tx.answer_eq_ok]
  simp [succeeds_hashPassword]

/-! Passwords of the same characters. -/

theorem accepted_iff : Accepted D p ↔
    (D.settings.passwordMinLength ≤ p.length ∧ p.length ≤ D.settings.passwordMaxLength) ∧
      (∃ x ∈ p.toList, 'A' ≤ x ∧ x ≤ 'Z') ∧ (∃ x ∈ p.toList, 'a' ≤ x ∧ x ≤ 'z') ∧ ∃ x ∈ p.toList, D.isDigit x = true := by
  simp only [Accepted, passwordProblems, List.append_eq_nil_iff, ite_eq_right_iff, ite_eq_left_iff, reduceCtorEq, imp_false,
    Nat.not_lt, not_not, List.any_eq_true, Bool.and_eq_true, decide_eq_true_eq]
  tauto

theorem Accepted.of_characters (h : Accepted D p) (characters : ∀ x ∈ p.toList, x ∈ q.toList)
    (low : D.settings.passwordMinLength ≤ q.length) (high : q.length ≤ D.settings.passwordMaxLength) : Accepted D q := by
  obtain ⟨-, ⟨x, hx, upper⟩, ⟨y, hy, lower⟩, z, hz, digit⟩ := accepted_iff.mp h
  exact accepted_iff.mpr ⟨⟨low, high⟩, ⟨x, characters x hx, upper⟩, ⟨y, characters y hy, lower⟩, z, characters z hz, digit⟩

theorem exists_rearranged {x y : Char} {rest : List Char} :
    ∃ other, other ≠ x :: y :: rest ∧ (∀ z, z ∈ other ↔ z ∈ x :: y :: rest) ∧ rest.length + 1 ≤ other.length ∧
      other.length ≤ rest.length + 2 := by
  by_cases hx : x ∈ y :: rest
  · refine ⟨y :: rest, ?_, ?_, by simp, by simp⟩
    · intro h
      exact absurd (congrArg List.length h) (by simp)
    · intro z
      rw [List.mem_cons (a := z) (b := x)]
      constructor
      · exact Or.inr
      · rintro (rfl | hz)
        · exact hx
        · exact hz
  · refine ⟨y :: x :: rest, ?_, ?_, by simp, by simp⟩
    · intro h
      have hyx : y = x := (List.cons.inj h).1
      exact hx (by simp [hyx])
    · intro z
      simp only [List.mem_cons]
      tauto

theorem length_le_size (letters : List Char) : letters.length ≤ letters.utf8Encode.size := by
  induction letters with
  | nil => simp
  | cons x letters ih =>
    have hx : 1 ≤ [x].utf8Encode.size := by
      rw [List.utf8Encode_singleton, List.size_toByteArray, String.length_utf8EncodeChar]
      exact x.utf8Size_pos
    rw [List.utf8Encode_cons, ByteArray.size_append, List.length_cons]
    omega

theorem firstBytes_append {front : List Char} (h : bcryptLimit ≤ front.utf8Encode.size) (rest : List Char) :
    firstBytes (front ++ rest).utf8Encode = firstBytes front.utf8Encode := by
  rw [List.utf8Encode_append, firstBytes, firstBytes, ByteArray.extract_append]
  simp [show bcryptLimit - front.utf8Encode.size = 0 by omega]

structure DefaultPolicy (D : Deployment) : Prop where
  min : D.settings.passwordMinLength = 8
  max : D.settings.passwordMaxLength = 128

theorem toUTF8_ofList (letters : List Char) : (String.ofList letters).toUTF8 = letters.utf8Encode := String.toByteArray_ofList

theorem Accepted.twin {front back other : List Char} (h : Accepted D (String.ofList (front ++ back)))
    (long : bcryptLimit ≤ front.utf8Encode.size) (hne : other ≠ back) (members : ∀ z ∈ back, z ∈ other)
    (low : D.settings.passwordMinLength ≤ front.length + other.length)
    (high : front.length + other.length ≤ D.settings.passwordMaxLength) :
    ∃ q, Accepted D q ∧ q ≠ String.ofList (front ++ back) ∧
      firstBytes q.toUTF8 = firstBytes (String.ofList (front ++ back)).toUTF8 := by
  refine ⟨String.ofList (front ++ other), ?_, ?_, ?_⟩
  · apply h.of_characters
    · intro z hz
      rw [String.toList_ofList] at hz ⊢
      rcases List.mem_append.mp hz with hz | hz
      · exact List.mem_append_left _ hz
      · exact List.mem_append_right _ (members z hz)
    · rw [String.length_ofList, List.length_append]
      exact low
    · rw [String.length_ofList, List.length_append]
      exact high
  · rw [Ne, String.ofList_inj]
    intro heq
    exact hne (List.append_cancel_left heq)
  · rw [toUTF8_ofList, toUTF8_ofList, firstBytes_append long, firstBytes_append long]

theorem exists_twin (defaults : DefaultPolicy D) (h : Accepted D p) (long : bcryptLimit ≤ p.toUTF8.size) :
    ∃ q, Accepted D q ∧ q ≠ p ∧ firstBytes q.toUTF8 = firstBytes p.toUTF8 := by
  obtain ⟨letters, rfl⟩ := p.exists_eq_ofList
  obtain ⟨⟨low, high⟩, -⟩ := accepted_iff.mp h
  rw [toUTF8_ofList] at long
  rw [defaults.min, String.length_ofList] at low
  rw [defaults.max, String.length_ofList] at high
  by_cases hroom : letters.length < 128
  · rw [← List.append_nil letters] at h ⊢
    apply h.twin long (List.cons_ne_nil 'a' [])
    · simp
    · rw [defaults.min, List.length_singleton]
      omega
    · rw [defaults.max, List.length_singleton]
      omega
  · -- no room for one more: the characters behind the first 72 are dropped from or put in another order
    have hdrop : (letters.drop 72).length = 56 := by
      rw [List.length_drop]
      omega
    have hfront : (letters.take 72).length = 72 := List.length_take_of_le (by omega)
    have hsize : bcryptLimit ≤ (letters.take 72).utf8Encode.size := by
      have := length_le_size (letters.take 72)
      rw [bcryptLimit]
      omega
    obtain ⟨x, y, rest, hrest⟩ : ∃ x y rest, letters.drop 72 = x :: y :: rest := by
      match hd : letters.drop 72 with
      | [] => simp [hd] at hdrop
      | [x] => simp [hd] at hdrop
      | x :: y :: rest => exact ⟨x, y, rest, rfl⟩
    have hrestLength : rest.length = 54 := by
      rw [hrest, List.length_cons, List.length_cons] at hdrop
      omega
    obtain ⟨other, hne, hmem, hlow, hhigh⟩ := @exists_rearranged x y rest
    have hletters : letters = letters.take 72 ++ x :: y :: rest := by rw [← hrest, List.take_append_drop]
    rw [hletters] at h ⊢
    apply h.twin hsize hne fun z hz => (hmem z).mpr hz
    · rw [defaults.min]
      omega
    · rw [defaults.max]
      omega

theorem firstBytes_of_le {b : ByteArray} (h : b.size ≤ bcryptLimit) : firstBytes b = b := by
  apply ByteArray.ext
  rw [firstBytes, ByteArray.data_extract]
  exact Array.extract_eq_self_of_le h

theorem eq_of_toUTF8 (h : q.toUTF8 = p.toUTF8) : q = p := String.toByteArray_inj.mp h

theorem eq_of_firstBytes (short : p.toUTF8.size < bcryptLimit) (h : firstBytes q.toUTF8 = firstBytes p.toUTF8) : q = p := by
  have hp : firstBytes p.toUTF8 = p.toUTF8 := firstBytes_of_le short.le
  have hsize : (firstBytes q.toUTF8).size = min bcryptLimit q.toUTF8.size := by
    rw [firstBytes, ByteArray.size_extract]
    omega
  have hq : q.toUTF8.size ≤ bcryptLimit := by
    rw [h, hp] at hsize
    omega
  rw [hp, firstBytes_of_le hq] at h
  exact eq_of_toUTF8 h

/-! The two versions. -/

theorem realPassword_of_checks {hashed : String} {verdict : Option Bool}
    (hash : D.bcrypt.hashpw p.toUTF8 c.fresh.salt = some hashed) (check : D.bcrypt.checkpw q.toUTF8 hashed.toUTF8 = verdict) :
    RealPassword D c w p q ↔ (verdict.getD false = true ↔ q = p) := by
  subst check
  constructor
  · rintro ⟨hashed', hash', verifies⟩
    obtain rfl := Option.some.inj (hash.symm.trans (hashPassword_answer.mp hash'))
    exact verifies
  · exact fun verifies => ⟨hashed, hashPassword_answer.mpr hash, verifies⟩

theorem real_iff_of_ignoresRest (b : D.bcrypt.IgnoresRest) :
    RealPassword D c w p q ↔ (firstBytes q.toUTF8 = firstBytes p.toUTF8 → q = p) := by
  obtain ⟨hashed, hash⟩ := b.hashes p.toUTF8 c.fresh.salt
  rw [realPassword_of_checks hash (b.checks _ _ _ hash _), Option.getD_some, decide_eq_true_eq]
  constructor
  · exact fun h => h.mp
  · intro h
    constructor
    · exact h
    · rintro rfl
      rfl

theorem real_iff_of_raisesBeyond (b : D.bcrypt.RaisesBeyond) : RealPassword D c w p q ↔ p.toUTF8.size ≤ bcryptLimit := by
  constructor
  · rintro ⟨hashed, hash, -⟩
    rw [← b.hashes _ c.fresh.salt, hashPassword_answer.mp hash]
    rfl
  · intro short
    obtain ⟨hashed, hash⟩ := Option.isSome_iff_exists.mp ((b.hashes _ c.fresh.salt).mpr short)
    rw [realPassword_of_checks hash (b.checks _ _ _ hash _)]
    by_cases hq : q.toUTF8.size ≤ bcryptLimit
    · rw [if_pos hq, Option.getD_some, decide_eq_true_eq]
      constructor
      · exact eq_of_toUTF8
      · rintro rfl
        rfl
    · rw [if_neg hq, Option.getD_none]
      constructor
      · exact fun h => absurd h (by decide)
      · rintro rfl
        exact absurd short hq

/-- An accepted password is a real one against every other accepted one exactly below the limit of bcrypt 4, and up to the
limit of bcrypt 5. -/
theorem real_password_iff (c : Call) (w : World) (defaults : DefaultPolicy D) (accepted : Accepted D p) :
    (D.bcrypt.IgnoresRest → ((∀ q, Accepted D q → RealPassword D c w p q) ↔ p.toUTF8.size < bcryptLimit)) ∧
      (D.bcrypt.RaisesBeyond → ((∀ q, Accepted D q → RealPassword D c w p q) ↔ p.toUTF8.size ≤ bcryptLimit)) := by
  constructor
  · intro b
    constructor
    · intro h
      by_contra hlong
      obtain ⟨q, hq, hne, hfirst⟩ := exists_twin defaults accepted (Nat.le_of_not_lt hlong)
      exact hne ((real_iff_of_ignoresRest b).mp (h q hq) hfirst)
    · exact fun short q _ => (real_iff_of_ignoresRest b).mpr (eq_of_firstBytes short)
  · intro b
    constructor
    · exact fun h => (real_iff_of_raisesBeyond b).mp (h p accepted)
    · exact fun short q _ => (real_iff_of_raisesBeyond b).mpr short

/-! A bcrypt of each version, without its stretching: the digest spells the bytes out. -/

def digest (bytes : ByteArray) : String := String.ofList (bytes.data.toList.map fun x => Char.ofNat x.toNat)

theorem toNat_ofNat_byte (x : UInt8) : (Char.ofNat x.toNat).toNat = x.toNat := by
  have hlt : x.toNat < 256 := x.toNat_lt
  have hvalid : x.toNat.isValidChar := Or.inl (by omega)
  rw [Char.ofNat, dif_pos hvalid]
  rfl

theorem digest_injective {a b : ByteArray} (h : digest a = digest b) : a = b := by
  have hmap := String.ofList_injective h
  have inj : Function.Injective fun x : UInt8 => Char.ofNat x.toNat := by
    intro x y hxy
    have hnat : (Char.ofNat x.toNat).toNat = (Char.ofNat y.toNat).toNat := congrArg Char.toNat hxy
    rw [toNat_ofNat_byte, toNat_ofNat_byte] at hnat
    exact UInt8.toNat_inj.mp hnat
  exact ByteArray.ext (Array.toList_inj.mp (List.map_injective_iff.mpr inj hmap))

def Bcrypt.version4 : Bcrypt where
  hashpw password _ := some (digest (firstBytes password))
  checkpw password hashed := some (decide ((digest (firstBytes password)).toUTF8 = hashed))

def Bcrypt.version5 : Bcrypt where
  hashpw password _ := if password.size ≤ bcryptLimit then some (digest password) else none
  checkpw password hashed := if password.size ≤ bcryptLimit then some (decide ((digest password).toUTF8 = hashed)) else none

theorem version4_ignoresRest : Bcrypt.version4.IgnoresRest where
  hashes password salt := ⟨_, rfl⟩
  checks := by
    intro password salt hashed hash other
    obtain rfl := Option.some.inj hash
    simp only [Bcrypt.version4, Option.some.injEq, decide_eq_decide]
    constructor
    · exact fun h => digest_injective (eq_of_toUTF8 h)
    · exact fun h => by rw [h]

theorem version5_raisesBeyond : Bcrypt.version5.RaisesBeyond where
  hashes password salt := by
    by_cases h : password.size ≤ bcryptLimit
    · simp [Bcrypt.version5, h]
    · simp [Bcrypt.version5, h]
  checks := by
    intro password salt hashed hash other
    have short : password.size ≤ bcryptLimit := by
      by_contra h
      simp [Bcrypt.version5, h] at hash
    simp only [Bcrypt.version5, if_pos short, Option.some.injEq] at hash
    subst hash
    by_cases h : other.size ≤ bcryptLimit
    · simp only [Bcrypt.version5, if_pos h, Option.some.injEq, decide_eq_decide]
      constructor
      · exact fun h => digest_injective (eq_of_toUTF8 h)
      · exact fun h => by rw [h]
    · simp only [Bcrypt.version5, if_neg h]

def Deployment.bcrypt4 : Deployment := { Deployment.sample with bcrypt := .version4 }

def Deployment.bcrypt5 : Deployment := { Deployment.sample with bcrypt := .version5 }

theorem real_password_iff_sample :
    (∀ q, Accepted .bcrypt4 q → RealPassword .bcrypt4 (Call.sample 4 none) World.initial "Passw0rd" q) ∧
      ∀ q, Accepted .bcrypt5 q → RealPassword .bcrypt5 (Call.sample 4 none) World.initial "Passw0rd" q := by
  have accepted4 : Accepted .bcrypt4 "Passw0rd" := by
    unfold Accepted
    decide +kernel
  have accepted5 : Accepted .bcrypt5 "Passw0rd" := by
    unfold Accepted
    decide +kernel
  have real4 := (real_password_iff (Call.sample 4 none) World.initial ⟨rfl, rfl⟩ accepted4).1 version4_ignoresRest
  have real5 := (real_password_iff (Call.sample 4 none) World.initial ⟨rfl, rfl⟩ accepted5).2 version5_raisesBeyond
  exact ⟨real4.mpr (by decide +kernel), real5.mpr (by decide +kernel)⟩

def longFront : List Char := "Passw0rd".toList ++ List.replicate 64 'x'

def longPassword (last : Char) : String := String.ofList (longFront ++ [last])

theorem firstBytes_longPassword (last : Char) : firstBytes (longPassword last).toUTF8 = firstBytes longFront.utf8Encode := by
  have hsize : bcryptLimit ≤ longFront.utf8Encode.size := by
    refine Nat.le_trans ?_ (length_le_size _)
    decide +kernel
  rw [longPassword, toUTF8_ofList, firstBytes_append hsize]

/-- Two accepted passwords of 73 characters: bcrypt 4 takes one for the other, bcrypt 5 hashes neither. -/
theorem long_password_not_real :
    (Accepted .bcrypt4 (longPassword 'x') ∧ Accepted .bcrypt4 (longPassword 'y') ∧
      ∀ c w, ¬RealPassword .bcrypt4 c w (longPassword 'x') (longPassword 'y')) ∧
    (Accepted .bcrypt5 (longPassword 'x') ∧ ∀ c w, ¬RealPassword .bcrypt5 c w (longPassword 'x') (longPassword 'x')) := by
  have hne : longPassword 'y' ≠ longPassword 'x' := by decide +kernel
  have hfirst : firstBytes (longPassword 'y').toUTF8 = firstBytes (longPassword 'x').toUTF8 :=
    (firstBytes_longPassword 'y').trans (firstBytes_longPassword 'x').symm
  have hlong : ¬(longPassword 'x').toUTF8.size ≤ bcryptLimit := by decide +kernel
  have accepted : Accepted .bcrypt4 (longPassword 'x') ∧ Accepted .bcrypt4 (longPassword 'y') ∧ Accepted .bcrypt5 (longPassword 'x') := by
    unfold Accepted
    decide +kernel
  refine ⟨⟨accepted.1, accepted.2.1, fun c w h => ?_⟩, accepted.2.2, fun c w h => ?_⟩
  · exact hne ((real_iff_of_ignoresRest version4_ignoresRest).mp h hfirst)
  · exact hlong ((real_iff_of_raisesBeyond version5_raisesBeyond).mp h)

end ProjectManagement
