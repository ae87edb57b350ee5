import ProjectManagement.Authentication
import ProjectManagement.Library.Refinement

/-!
The standing of an account: it is opened active, only administrators close and reopen it, and it is deleted for good. A
bearer token counts for as long as the last word about its account is that it is active.
-/

namespace ProjectManagement

open Library

variable {D : Deployment} {c : Call} {i : Input} {e : Event} {w : World} {d : Db} {users : Table User} {u v : User} {id : Uuid}
  {request : Request} {es : List Event}

inductive Standing
  | absent
  | active
  | inactive
  | deleted
  deriving DecidableEq

inductive Standing.Next : Standing → Standing → Prop
  | opened : Next absent active
  | closed : Next active inactive
  | reopened : Next inactive active
  | same {s} (h : s = active ∨ s = inactive) : Next s s
  | deleted {s} (h : s = active ∨ s = inactive) : Next s deleted

def User.standing (u : User) : Standing :=
  if u.live then if u.isActive then .active else .inactive else .deleted

def standing (users : Table User) (id : Uuid) : Standing := ((users.lookup id).map User.standing).getD .absent

def Request.standing (c : Call) : Request → Option (Uuid × Standing)
  | .register _ | .createUser _ => some (c.fresh.id, .active)
  | .updateUser id p =>
    match p.isActive with
    | .value active => some (id, if active then .active else .inactive)
    | _ => none
  | .deleteUser id => some (id, .deleted)
  | _ => none

/-- The seed script opens an account, or leaves the accounts as they are. -/
def standingWrite (D : Deployment) (e : Event) (w : World) : Option (Uuid × Standing) :=
  match e with
  | .request i => if (outcome D i w).isOk then i.request.standing i.call else none
  | .seedAdmin c .. => if (nextWorld D e w).1.users.rows = w.1.users.rows then none else some (c.fresh.id, .active)

theorem standing_eq (hu : u ∈ users.rows) : standing users u.id = u.standing := by
  have hlookup : users.lookup u.id = some u := Table.lookup_eq_some.mpr ⟨hu, rfl⟩
  rw [standing, hlookup]
  rfl

theorem standing_of_found (found : UserRepository.find id d = some u) :
    standing d.users id = if u.isActive then .active else .inactive := by
  obtain ⟨hu, live, rfl⟩ := UserRepository.find_eq_some.mp found
  rw [standing_eq hu, User.standing, if_pos live]

section Facets

/-! What one looks at in an account, as a function of its id. -/

variable {β : Type} {t : Table User} (seen : Option User → β)

theorem seen_added (rows : users.rows = t.rows ++ [v]) : t.lookup v.id = none ∧
    (fun k => seen (users.lookup k)) = Function.update (fun k => seen (t.lookup k)) v.id (seen (some v)) := by
  constructor
  · rw [Table.lookup_eq_none]
    exact fun u hu => Table.key_ne_of_append rows hu
  · rw [Table.lookup_appended rows]
    exact Function.comp_update seen t.lookup v.id (some v)

theorem seen_flushed (hu : u ∈ t.rows) (hid : v.id = u.id)
    (stamped : seen (some (UserRepository.stamped D c v)) = seen (some v)) :
    (fun k => seen ((t.put (afterFlush (UserRepository.stamped D c) u v)).lookup k)) =
      Function.update (fun k => seen (t.lookup k)) u.id (seen (some v)) := by
  rw [Table.lookup_replaced hu (UserRepository.afterFlush_id hid), ← afterFlush_column (fun v => seen (some v)) stamped]
  exact Function.comp_update seen t.lookup u.id _

end Facets

theorem standing_added {t : Table User} (rows : users.rows = t.rows ++ [v]) :
    standing t v.id = .absent ∧ standing users = Function.update (standing t) v.id v.standing := by
  obtain ⟨new, hseen⟩ := seen_added (fun o => (o.map User.standing).getD .absent) rows
  constructor
  · rw [standing, new]
    rfl
  · exact hseen

theorem standing_flushed {t : Table User} (hu : u ∈ t.rows) (hid : v.id = u.id) :
    standing (t.put (afterFlush (UserRepository.stamped D c) u v)) = Function.update (standing t) u.id v.standing :=
  seen_flushed (fun o => (o.map User.standing).getD .absent) hu hid rfl

theorem standing_flushed_same {t : Table User} (hu : u ∈ t.rows) (hid : v.id = u.id) (same : v.standing = u.standing) :
    standing (t.put (afterFlush (UserRepository.stamped D c) u v)) = standing t := by
  rw [standing_flushed hu hid, same, ← standing_eq hu, Function.update_eq_self]

theorem standing_of_reads (reads : request.reads = true) : request.standing c = none := by
  cases request <;> first | rfl | exact absurd reads (by simp [Request.reads])

theorem standing_next (found : UserRepository.find id d = some u) (s : Bool) :
    Standing.Next (standing d.users id) (if s then .active else .inactive) := by
  rw [standing_of_found found]
  cases u.isActive <;> cases s
  · exact .same (Or.inr rfl)
  · exact .reopened
  · exact .closed
  · exact .same (Or.inl rfl)

theorem standing_updated {p : UserUpdate} (found : UserRepository.find id d = some u) (sent : p.setattrs u = .ok v) :
    Follows Standing.Next ((Request.updateUser id p).standing c) (standing d.users) ∧
      standing (d.users.put (afterFlush (UserRepository.stamped D c) u v)) =
        store ((Request.updateUser id p).standing c) (standing d.users) := by
  obtain ⟨hu, live, hid⟩ := UserRepository.find_eq_some.mp found
  obtain ⟨⟨-, -, notNull⟩, rfl⟩ := UserUpdate.setattrs_eq_ok.mp sent
  have hlive : (p.applied u).live = true := live
  have hstatus : (p.applied u).isActive = p.isActive.assignNotNull u.isActive := rfl
  cases hactive : p.isActive with
  | unset =>
    rw [hactive] at hstatus
    simp only [Request.standing, hactive]
    refine ⟨trivial, standing_flushed_same hu rfl ?_⟩
    rw [User.standing, User.standing, if_pos hlive, if_pos live, hstatus]
    rfl
  | null => exact absurd hactive notNull
  | value s =>
    rw [hactive] at hstatus
    simp only [Request.standing, hactive]
    refine ⟨standing_next found s, ?_⟩
    rw [standing_flushed (v := p.applied u) hu rfl, hid, User.standing, if_pos hlive, hstatus]
    rfl

theorem standing_step : Follows Standing.Next (standingWrite D e w) (standing w.1.users) ∧
    standing (nextWorld D e w).1.users = store (standingWrite D e w) (standing w.1.users) := by
  cases e with
  | seedAdmin c email password fullName =>
    rw [standingWrite]
    rcases seedAdmin_next (D := D) (w := w) c email password fullName with hw | ⟨hashed, users, -, -, rows, hw⟩
    · rw [hw, if_pos rfl]
      exact ⟨trivial, rfl⟩
    · obtain ⟨habsent, hadded⟩ := standing_added rows
      rw [hw, if_neg (by simp [rows])]
      refine ⟨?_, hadded⟩
      change Standing.Next (standing w.1.users c.fresh.id) .active
      rw [show standing w.1.users c.fresh.id = .absent from habsent]
      exact .opened
  | request i =>
    have effect := step_effect D i w
    change _ ∧ standing (next D i w).1.users = _
    rw [standingWrite]
    generalize outcome D i w = o at effect ⊢
    generalize next D i w = w' at effect ⊢
    have opened : ∀ {t : Table User} {users : Table User} {v : User}, users.rows = t.rows ++ [v] → v.standing = .active →
        Follows Standing.Next (some (v.id, .active)) (standing t) ∧
          standing users = store (some (v.id, .active)) (standing t) := by
      intro t users v rows active
      obtain ⟨habsent, hadded⟩ := standing_added rows
      refine ⟨?_, hadded.trans (by rw [active]; rfl)⟩
      rw [Follows, habsent]
      exact .opened
    cases effect with
    | rejected => exact ⟨trivial, rfl⟩
    | answered reads =>
      rw [standing_of_reads reads, ite_self]
      exact ⟨trivial, rfl⟩
    | registered errors policy free hash rows => exact opened rows rfl
    | userCreated caller admin errors policy free hash rows => exact opened rows rfl
    | passwordChanged caller errors verified policy hash => exact ⟨trivial, standing_flushed_same caller.mem (by rfl) (by rfl)⟩
    | userUpdated caller errors allowed found status free sent => exact standing_updated found sent
    | roleUpdated caller admin found =>
      exact ⟨trivial, standing_flushed_same (UserRepository.find_eq_some.mp found).1 (by rfl) (by rfl)⟩
    | @userDeleted c d b a id actor u caller admin other found =>
      obtain ⟨hu, -, hid⟩ := UserRepository.find_eq_some.mp found
      constructor
      · change Standing.Next (standing d.users id) .deleted
        rw [standing_of_found found]
        cases u.isActive
        · exact .deleted (Or.inr rfl)
        · exact .deleted (Or.inl rfl)
      · rw [← hid]
        exact standing_flushed hu rfl
    | _ => exact ⟨trivial, rfl⟩

theorem standing_eq_active : standing d.users id = .active ↔ ∃ u, UserRepository.find id d = some u ∧ u.isActive = true := by
  constructor
  · intro h
    rw [standing] at h
    cases hlookup : d.users.lookup id with
    | none => simp [hlookup] at h
    | some u =>
      obtain ⟨hu, hid⟩ := Table.lookup_eq_some.mp hlookup
      simp only [hlookup, Option.map_some, Option.getD_some, User.standing] at h
      split at h
      · next live =>
        split at h
        · next active => exact ⟨u, UserRepository.find_eq_some.mpr ⟨hu, live, hid⟩, active⟩
        · exact absurd h (by simp)
      · exact absurd h (by simp)
  · rintro ⟨u, found, active⟩
    rw [standing_of_found found, if_pos active]

theorem currentUser_iff {payload : AccessToken} (token : c.bearer.bind (decodeAccessToken c) = some payload)
    (sub : payload.sub = some id) : (∃ u, CurrentUser c d u) ↔ standing d.users id = .active := by
  rw [standing_eq_active]
  constructor
  · rintro ⟨u, ⟨payload', token', sub'⟩, found, active⟩
    obtain rfl := Option.some.inj (token.symm.trans token')
    obtain rfl := Option.some.inj (sub.symm.trans sub')
    exact ⟨u, found, active⟩
  · rintro ⟨u, found, active⟩
    obtain ⟨-, -, rfl⟩ := UserRepository.find_eq_some.mp found
    exact ⟨u, ⟨payload, token, sub⟩, found, active⟩

theorem me_iff : (∃ a, outcome D ⟨c, .me⟩ w = .ok a) ↔ ∃ u, CurrentUser c w.1 u := by
  constructor
  · rintro ⟨a, ha⟩
    obtain ⟨t, ht, -⟩ := succeeds_of_outcome ha
    obtain ⟨u, _, hu, -⟩ := Tx.succeeds_bind.mp ht
    exact ⟨u, (succeeds_getCurrentUser.mp hu).1⟩
  · rintro ⟨u, caller⟩
    have hroute : (handle D c .me).Succeeds ⟨w.1, w.1, w.2⟩ _ ⟨w.1, w.1, w.2⟩ :=
      (succeeds_getCurrentUser.mpr ⟨caller, rfl⟩).bind (Tx.succeeds_pure.mpr ⟨rfl, rfl⟩)
    exact ⟨_, congrArg Prod.fst (Tx.run_of_succeeds hroute)⟩

/-- Whoever changes the standing of an account there is already. -/
theorem standingWrite_admin {k : Uuid × Standing} (h : standingWrite D (.request i) w = some k)
    (there : standing w.1.users k.1 ≠ .absent) :
    ∃ actor, CurrentUser i.call w.1 actor ∧ actor.role = .admin ∧ (k.2 = .deleted → k.1 ≠ actor.id) := by
  have effect := step_effect D i w
  rw [standingWrite] at h
  generalize outcome D i w = o at effect h
  generalize next D i w = w' at effect
  have opened : ∀ {t : Table User} {users : Table User} {v : User}, users.rows = t.rows ++ [v] → standing t v.id = .absent :=
    fun rows => (standing_added rows).1
  cases effect with
  | rejected => exact absurd h (by simp [Except.isOk, Except.toBool])
  | answered reads =>
    rw [standing_of_reads reads, ite_self] at h
    exact absurd h (by simp)
  | registered errors policy free hash rows =>
    obtain rfl := Option.some.inj h
    exact absurd (opened rows) there
  | userCreated caller admin errors policy free hash rows =>
    obtain rfl := Option.some.inj h
    exact absurd (opened rows) there
  | @userUpdated c d b a id p actor u v caller errors allowed found status free sent =>
    have sets : p.isActive.isSet = true ∧ k.2 ≠ .deleted := by
      cases hactive : p.isActive with
      | unset => simp [Except.isOk, Except.toBool, Request.standing, hactive] at h
      | null => simp [Except.isOk, Except.toBool, Request.standing, hactive] at h
      | value s =>
        obtain rfl : (id, if s then Standing.active else .inactive) = k := by
          simpa [Except.isOk, Except.toBool, Request.standing, hactive] using h
        refine ⟨rfl, ?_⟩
        cases s <;> simp
    exact ⟨actor, caller, status sets.1, fun hdeleted => absurd hdeleted sets.2⟩
  | @userDeleted c d b a id actor u caller admin other found =>
    obtain rfl := Option.some.inj h
    exact ⟨actor, caller, admin, fun _ => other⟩
  | _ => exact absurd h (by simp [Except.isOk, Except.toBool, Request.standing])

/-- The log of openings, closings and deletions decides whose bearer tokens count, and only administrators write to it about an
account there is. -/
theorem standing_decides (D : Deployment) (es : List Event) :
    Run store (Follows Standing.Next) (fun _ => .absent) (labels (nextWorld D) (standingWrite D) World.initial es)
        (standing (playFrom D World.initial es).1.users) ∧
      (∀ id, (.absent :: writesTo id (labels (nextWorld D) (standingWrite D) World.initial es)).IsChain Standing.Next) ∧
      (∀ i w, ∀ k ∈ standingWrite D (.request i) w, standing w.1.users k.1 ≠ .absent →
        ∃ actor, CurrentUser i.call w.1 actor ∧ actor.role = .admin ∧ (k.2 = .deleted → k.1 ≠ actor.id)) ∧
      ∀ c payload id, c.bearer.bind (decodeAccessToken c) = some payload → payload.sub = some id →
        ((∃ a, outcome D ⟨c, .me⟩ (playFrom D World.initial es) = .ok a) ↔
          (writesTo id (labels (nextWorld D) (standingWrite D) World.initial es)).getLast? = some .active) ∧
        ((writesTo id (labels (nextWorld D) (standingWrite D) World.initial es)).getLast? ≠ some .active →
          ∀ request : Request, request.isPublic = false →
            (∃ e, outcome D ⟨c, request⟩ (playFrom D World.initial es) = .error e ∧ e.response.statusCode = 401) ∧
              next D ⟨c, request⟩ (playFrom D World.initial es) = playFrom D World.initial es) := by
  have hrun : Run store (Follows Standing.Next) (standing World.initial.1.users)
      (labels (nextWorld D) (standingWrite D) World.initial es) (standing (playFrom D World.initial es).1.users) := by
    apply (Run.of_foldl World.initial es).simulates (fun w => standing w.1.users) (fun _ => True)
    · exact fun e w _ _ => ⟨trivial, standing_step⟩
    · trivial
  have hinitial : standing World.initial.1.users = fun _ => .absent := rfl
  rw [hinitial] at hrun
  generalize labels (nextWorld D) (standingWrite D) World.initial es = log at hrun
  refine ⟨hrun, fun id => hrun.writes_chain id, fun i w k hk there => standingWrite_admin hk there, fun c payload id token sub => ?_⟩
  have hlast : (∃ u, CurrentUser c (playFrom D World.initial es).1 u) ↔ (writesTo id log).getLast? = some .active := by
    rw [currentUser_iff token sub, hrun.last_write, List.getLastD_eq_getLast?]
    cases (writesTo id log).getLast? <;> simp
  constructor
  · rw [me_iff, hlast]
  · intro closed request hprivate
    exact unauthenticated hprivate fun u caller => closed (hlast.mp ⟨u, caller⟩)

def closedAccount : List Event :=
  oneTask ++ sampleRequests 4 [(none, .register ⟨"a@b.c", "Passw0rd", "A"⟩), (some 16, .updateUser 64 { isActive := .value false })]

theorem standing_decides_sample :
    writesTo 64 (labels (nextWorld .sample) (standingWrite .sample) World.initial closedAccount) = [.active, .inactive] ∧
      ∃ e, outcome .sample ⟨Call.sample 6 (some 64), .me⟩ (playFrom .sample World.initial closedAccount) = .error e ∧
        e.response.statusCode = 401 := by
  have hlog : writesTo 64 (labels (nextWorld .sample) (standingWrite .sample) World.initial closedAccount) = [.active, .inactive] := by
    decide +kernel
  obtain ⟨-, -, -, decides⟩ := standing_decides .sample closedAccount
  obtain ⟨-, refused⟩ := decides (Call.sample 6 (some 64)) ⟨true, some 64, "", "access", 0, 1000⟩ 64 (by decide +kernel) rfl
  exact ⟨hlog, (refused (by rw [hlog]; decide) .me rfl).1⟩

end ProjectManagement
