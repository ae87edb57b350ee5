import ProjectManagement.Core.Config
import ProjectManagement.Core.Exceptions
import ProjectManagement.Core.Models

/-!
The statements that write one row, each with the constraints the schema puts on it. A text that its
column cannot hold is a `DataError`, every other violation an `IntegrityError`.
-/

namespace ProjectManagement

open Library

def checked (constraints : List (Bool × Raised)) (result : Option Db) : Except Raised Db :=
  match constraints.find? Prod.fst with
  | some c => .error c.2
  | none => result.elim (.error .integrity) .ok

theorem checked_eq_ok {constraints : List (Bool × Raised)} {result : Option Db} {d : Db} :
    checked constraints result = .ok d ↔ (∀ c ∈ constraints, c.1 = false) ∧ result = some d := by
  unfold checked
  cases h : constraints.find? Prod.fst with
  | some c =>
    have hc := List.find?_some h
    have hm := List.mem_of_find?_eq_some h
    simp only [reduceCtorEq, false_iff, not_and]
    exact fun hall => absurd (hall c hm) (by simp [hc])
  | none =>
    have hn : ∀ c ∈ constraints, c.1 = false := fun c hc => by simpa using List.find?_eq_none.mp h c hc
    cases result with
    | none => simp
    | some e =>
      simp only [Option.elim_some, Except.ok.injEq, Option.some.injEq]
      exact ⟨fun he => ⟨hn, he⟩, fun he => he.2⟩

theorem checked_ok {constraints : List (Bool × Raised)} {result : Option Db} {d : Db}
    (h : checked constraints result = .ok d) : (∀ c ∈ constraints, c.1 = false) ∧ result = some d := checked_eq_ok.mp h

theorem checked_insert_ok {ρ : Type} [Keyed ρ Uuid] {constraints : List (Bool × Raised)} {t : Table ρ} {r : ρ} {f : Table ρ → Db}
    {d : Db} (h : checked constraints ((t.insert? r).map f) = .ok d) :
    (∀ c ∈ constraints, c.1 = false) ∧ (∀ v ∈ t.rows, Keyed.key v ≠ Keyed.key r) ∧ ∃ u : Table ρ, u.rows = t.rows ++ [r] ∧ d = f u := by
  obtain ⟨hc, hr⟩ := checked_ok h
  obtain ⟨u, hu, rfl⟩ := Option.map_eq_some_iff.mp hr
  obtain ⟨hk, hrows⟩ := Table.insert?_eq_some.mp hu
  exact ⟨hc, hk, u, hrows, rfl⟩

def tooLong (e : Engine) (texts : List String) : Bool :=
  e.enforcesLengths && texts.any (fun s => 255 < s.length)

/-- The texts of `VARCHAR(255)` columns, and those of `TEXT` columns. -/
def unstorable (e : Engine) (limited unlimited : List String) : Bool :=
  tooLong e limited || holdsNul e (limited ++ unlimited)

theorem tooLong_of_le {e : Engine} {text : String} (h : text.length ≤ 255) : tooLong e [text] = false := by
  simp only [tooLong, List.any_cons, List.any_nil, Bool.or_false, Bool.and_eq_false_iff, decide_eq_false_iff_not]
  exact Or.inr (Nat.not_lt.mpr h)

theorem unstorable_eq_false {e : Engine} {limited unlimited : List String} : unstorable e limited unlimited = false ↔
    tooLong e limited = false ∧ holdsNul e (limited ++ unlimited) = false := by
  rw [unstorable, Bool.or_eq_false_iff]

theorem unstorable_of_le {e : Engine} {text : String} {unlimited : List String} (length : text.length ≤ 255)
    (nul : holdsNul e (text :: unlimited) = false) : unstorable e [text] unlimited = false :=
  unstorable_eq_false.mpr ⟨tooLong_of_le length, nul⟩

theorem unstorable_cons {e : Engine} {text : String} {limited unlimited : List String} :
    unstorable e (text :: limited) unlimited = false ↔
      unstorable e [text] [] = false ∧ unstorable e limited unlimited = false := by
  cases h : e.refusesNul <;> cases h' : e.enforcesLengths <;> simp [unstorable, tooLong, holdsNul, h, h', and_assoc, and_left_comm]

def dangling {ρ : Type} [Keyed ρ Uuid] (e : Engine) (t : Table ρ) (id : Uuid) : Bool :=
  e.enforcesForeignKeys && !t.rows.any (fun r => Keyed.key r == id)

theorem dangling_of_mem {ρ : Type} [Keyed ρ Uuid] {e : Engine} {t : Table ρ} {r : ρ} {id : Uuid} (hr : r ∈ t.rows)
    (hid : Keyed.key r = id) : dangling e t id = false := by
  have hany : t.rows.any (fun r => Keyed.key r == id) = true := List.any_eq_true.mpr ⟨r, hr, by simpa using hid⟩
  simp [dangling, hany]

namespace Db

/-- `uq_users_email_active`: a live row under another id holds the email. -/
def emailTaken (d : Db) (u : User) : Bool :=
  u.live && d.users.rows.any (fun v => v.live && v.email == u.email && v.id != u.id)

def insertUser (e : Engine) (u : User) (d : Db) : Except Raised Db :=
  checked
    [(unstorable e [u.email, u.fullName] [], .unexpected), (d.emailTaken u, .integrity)]
    ((d.users.insert? u).map fun t => { d with users := t })

def putUser (e : Engine) (u : User) (d : Db) : Except Raised Db :=
  checked
    [(unstorable e [u.email, u.fullName] [], .unexpected), (d.emailTaken u, .integrity)]
    (some { d with users := d.users.put u })

def insertRefreshToken (e : Engine) (t : RefreshToken) (d : Db) : Except Raised Db :=
  checked
    [(d.refreshTokens.rows.any (fun r => r.tokenHash == t.tokenHash), .integrity),
      (dangling e d.users t.userId, .integrity)]
    ((d.refreshTokens.insert? t).map fun ts => { d with refreshTokens := ts })

def insertProject (e : Engine) (p : Project) (d : Db) : Except Raised Db :=
  checked
    [(unstorable e [p.name] p.description.toList, .unexpected), (dangling e d.users p.createdBy, .integrity)]
    ((d.projects.insert? p).map fun t => { d with projects := t })

def putProject (e : Engine) (p : Project) (d : Db) : Except Raised Db :=
  checked [(unstorable e [p.name] p.description.toList, .unexpected)] (some { d with projects := d.projects.put p })

def insertProjectMember (e : Engine) (m : ProjectMember) (d : Db) : Except Raised Db :=
  checked
    [(d.projectMembers.rows.any (fun r => r.projectId == m.projectId && r.userId == m.userId), .integrity),
      (dangling e d.projects m.projectId, .integrity), (dangling e d.users m.userId, .integrity)]
    ((d.projectMembers.insert? m).map fun t => { d with projectMembers := t })

def insertTask (e : Engine) (t : Task) (d : Db) : Except Raised Db :=
  checked
    [(unstorable e [t.title] t.description.toList, .unexpected), (dangling e d.projects t.projectId, .integrity),
      (t.assigneeId.any (dangling e d.users), .integrity), (dangling e d.users t.createdBy, .integrity)]
    ((d.tasks.insert? t).map fun ts => { d with tasks := ts })

/-- The versioned `UPDATE`: it matches the row only under the version that was loaded, and checks nothing of a row it
does not match but the encoding of its parameters. -/
def putTask (e : Engine) (loaded : ℕ) (t : Task) (d : Db) : Except Raised Db :=
  checked
    [(holdsNul e ([t.title] ++ t.description.toList), .unexpected),
      (!d.tasks.rows.any (fun r => r.id == t.id && r.version == loaded), .staleData), (tooLong e [t.title], .unexpected),
      (t.assigneeId.any (dangling e d.users), .integrity)]
    (some { d with tasks := d.tasks.put t })

def insertComment (e : Engine) (c : Comment) (d : Db) : Except Raised Db :=
  checked
    [(holdsNul e [c.content], .unexpected), (dangling e d.tasks c.taskId, .integrity),
      (dangling e d.users c.userId, .integrity)]
    ((d.comments.insert? c).map fun t => { d with comments := t })

def putComment (e : Engine) (c : Comment) (d : Db) : Except Raised Db :=
  checked [(holdsNul e [c.content], .unexpected)] (some { d with comments := d.comments.put c })

def insertFileAttachment (e : Engine) (f : FileAttachment) (d : Db) : Except Raised Db :=
  checked
    [(unstorable e ([f.originalFilename, f.storedFilename] ++ f.contentType.toList) [], .unexpected),
      (d.fileAttachments.rows.any (fun r => r.storedFilename == f.storedFilename), .integrity),
      (dangling e d.tasks f.taskId, .integrity), (dangling e d.users f.uploadedBy, .integrity)]
    ((d.fileAttachments.insert? f).map fun t => { d with fileAttachments := t })

/-- Its texts are literals around texts that have been stored before, so there is no NUL in them. -/
def insertNotification (e : Engine) (n : Notification) (d : Db) : Except Raised Db :=
  checked
    [(tooLong e [n.title], .unexpected), (dangling e d.users n.userId, .integrity)]
    ((d.notifications.insert? n).map fun t => { d with notifications := t })

/-! What a successful statement has checked and leaves behind. -/

section Succeeded

variable {e : Engine} {d d' : Db}

theorem insertUser_ok {u : User} (h : insertUser e u d = .ok d') :
    (∀ v ∈ d.users.rows, v.id ≠ u.id) ∧ d.emailTaken u = false ∧
      ∃ t, t.rows = d.users.rows ++ [u] ∧ d' = { d with users := t } := by
  obtain ⟨hc, hk, t, hrows, rfl⟩ := checked_insert_ok h
  exact ⟨hk, hc (d.emailTaken u, .integrity) (by simp), t, hrows, rfl⟩

theorem putUser_ok {u : User} (h : putUser e u d = .ok d') :
    d.emailTaken u = false ∧ d' = { d with users := d.users.put u } := by
  obtain ⟨hc, hr⟩ := checked_ok h
  exact ⟨hc (d.emailTaken u, .integrity) (by simp), (Option.some.inj hr).symm⟩

theorem insertRefreshToken_ok {r : RefreshToken} (h : insertRefreshToken e r d = .ok d') :
    (∀ v ∈ d.refreshTokens.rows, v.id ≠ r.id ∧ v.tokenHash ≠ r.tokenHash) ∧
      ∃ t, t.rows = d.refreshTokens.rows ++ [r] ∧ d' = { d with refreshTokens := t } := by
  obtain ⟨hc, hk, t, hrows, rfl⟩ := checked_insert_ok h
  have hu : d.refreshTokens.rows.any (fun v => v.tokenHash == r.tokenHash) = false := hc (_, .integrity) (by simp)
  exact ⟨fun v hv => ⟨hk v hv, by simpa using List.any_eq_false.mp hu v hv⟩, t, hrows, rfl⟩

theorem insertRefreshToken_of_new {r : RefreshToken} {u : User}
    (new : ∀ v ∈ d.refreshTokens.rows, v.id ≠ r.id ∧ v.tokenHash ≠ r.tokenHash) (hu : u ∈ d.users.rows) (hid : u.id = r.userId) :
    ∃ t, t.rows = d.refreshTokens.rows ++ [r] ∧ insertRefreshToken e r d = .ok { d with refreshTokens := t } := by
  obtain ⟨t, hinsert, rows⟩ := Table.insert?_of_new fun v hv => (new v hv).1
  refine ⟨t, rows, checked_eq_ok.mpr ⟨?_, congrArg (Option.map _) hinsert⟩⟩
  have hunique : d.refreshTokens.rows.any (fun v => v.tokenHash == r.tokenHash) = false := by
    simpa using fun v hv => (new v hv).2
  simpa [dangling_of_mem hu hid] using hunique

theorem insertProject_ok {p : Project} (h : insertProject e p d = .ok d') :
    (∀ v ∈ d.projects.rows, v.id ≠ p.id) ∧ ∃ t, t.rows = d.projects.rows ++ [p] ∧ d' = { d with projects := t } := by
  exact (checked_insert_ok h).2

theorem putProject_ok {p : Project} (h : putProject e p d = .ok d') :
    d' = { d with projects := d.projects.put p } :=
  (Option.some.inj (checked_ok h).2).symm

theorem insertProjectMember_ok {m : ProjectMember} (h : insertProjectMember e m d = .ok d') :
    (∀ v ∈ d.projectMembers.rows, v.id ≠ m.id ∧ ¬(v.projectId = m.projectId ∧ v.userId = m.userId)) ∧
      ∃ t, t.rows = d.projectMembers.rows ++ [m] ∧ d' = { d with projectMembers := t } := by
  obtain ⟨hc, hk, t, hrows, rfl⟩ := checked_insert_ok h
  have hu : d.projectMembers.rows.any (fun v => v.projectId == m.projectId && v.userId == m.userId) = false :=
    hc (_, .integrity) (by simp)
  exact ⟨fun v hv => ⟨hk v hv, by simpa using List.any_eq_false.mp hu v hv⟩, t, hrows, rfl⟩

theorem insertTask_ok {r : Task} (h : insertTask e r d = .ok d') :
    (∀ v ∈ d.tasks.rows, v.id ≠ r.id) ∧ ∃ t, t.rows = d.tasks.rows ++ [r] ∧ d' = { d with tasks := t } := by
  exact (checked_insert_ok h).2

theorem putTask_ok {loaded : ℕ} {r : Task} (h : putTask e loaded r d = .ok d') :
    d' = { d with tasks := d.tasks.put r } :=
  (Option.some.inj (checked_ok h).2).symm

theorem putComment_ok {r : Comment} (h : putComment e r d = .ok d') : d' = { d with comments := d.comments.put r } :=
  (Option.some.inj (checked_ok h).2).symm

theorem insertComment_ok {r : Comment} (h : insertComment e r d = .ok d') :
    (∀ v ∈ d.comments.rows, v.id ≠ r.id) ∧ ∃ t, t.rows = d.comments.rows ++ [r] ∧ d' = { d with comments := t } := by
  exact (checked_insert_ok h).2

theorem insertFileAttachment_ok {r : FileAttachment} (h : insertFileAttachment e r d = .ok d') :
    (∀ v ∈ d.fileAttachments.rows, v.id ≠ r.id ∧ v.storedFilename ≠ r.storedFilename) ∧
      ∃ t, t.rows = d.fileAttachments.rows ++ [r] ∧ d' = { d with fileAttachments := t } := by
  obtain ⟨hc, hk, t, hrows, rfl⟩ := checked_insert_ok h
  have hu : d.fileAttachments.rows.any (fun v => v.storedFilename == r.storedFilename) = false :=
    hc (_, .integrity) (by simp)
  exact ⟨fun v hv => ⟨hk v hv, by simpa using List.any_eq_false.mp hu v hv⟩, t, hrows, rfl⟩

theorem insertNotification_ok {r : Notification} (h : insertNotification e r d = .ok d') :
    (∀ v ∈ d.notifications.rows, v.id ≠ r.id) ∧
      ∃ t, t.rows = d.notifications.rows ++ [r] ∧ d' = { d with notifications := t } := by
  exact (checked_insert_ok h).2

end Succeeded

end Db

/-- What a flush leaves of a row: nothing happens without a net change. -/
def afterFlush {ρ : Type} [DecidableEq ρ] (stamp : ρ → ρ) (old new : ρ) : ρ := if new = old then old else stamp new

theorem afterFlush_of_ne {ρ : Type} [DecidableEq ρ] {stamp : ρ → ρ} {old new : ρ} (h : new ≠ old) :
    afterFlush stamp old new = stamp new := if_neg h

theorem afterFlush_cases {ρ : Type} [DecidableEq ρ] (stamp : ρ → ρ) (old new : ρ) :
    afterFlush stamp old new = new ∨ afterFlush stamp old new = stamp new := by
  by_cases hsame : new = old
  · rw [afterFlush, if_pos hsame, hsame]
    exact Or.inl rfl
  · rw [afterFlush_of_ne hsame]
    exact Or.inr rfl

theorem afterFlush_column {ρ β : Type} [DecidableEq ρ] {stamp : ρ → ρ} {old new : ρ} (column : ρ → β)
    (h : column (stamp new) = column new) : column (afterFlush stamp old new) = column new := by
  rcases afterFlush_cases stamp old new with hrow | hrow
  · rw [hrow]
  · rw [hrow, h]

theorem find?_afterFlush {ρ : Type} [Keyed ρ Uuid] [DecidableEq ρ] {t : Table ρ} {p : ρ → Bool} {id : Uuid} {stamp : ρ → ρ}
    {old new : ρ} (found : t.rows.find? (fun x => p x && Keyed.key x == id) = some old)
    (stampKey : Keyed.key (stamp new) = Keyed.key new) (stampKeeps : p (stamp new) = p new)
    (sameKey : Keyed.key new = Keyed.key old) (kept : p new = p old) :
    (t.put (afterFlush stamp old new)).rows.find? (fun x => p x && Keyed.key x == id) = some (afterFlush stamp old new) := by
  apply Table.find?_put found
  · exact (afterFlush_column Keyed.key stampKey).trans sameKey
  · exact (afterFlush_column p stampKeeps).trans kept

end ProjectManagement
