import ProjectManagement.System

/-!
The administrators. `delete_user` refuses the caller's own account, so that the acting administrator survives it; a role
update and an account status update have no such guard.
-/

namespace ProjectManagement

open Library

variable {D : Deployment} {c : Call} {i : Input} {e : Event} {w : World} {d : Db} {t : Table User} {a : ApiResponse} {u v : User} {id : Uuid}

def User.administers (u : User) : Bool := u.live && u.isActive && u.role == .admin

theorem User.administers_iff : u.administers = true ↔ u.live = true ∧ u.isActive = true ∧ u.role = .admin := by
  simp [User.administers, and_assoc]

def Administered (users : Table User) : Prop := ∃ u ∈ users.rows, u.administers = true

instance : Decidable (Administered t) := inferInstanceAs (Decidable (∃ u ∈ t.rows, u.administers = true))

theorem CurrentUser.administers (h : CurrentUser c d u) (admin : u.role = .admin) : u.administers = true :=
  User.administers_iff.mpr ⟨(UserRepository.find_eq_some.mp h.found).2.1, h.active, admin⟩

structure SoleAdministrator (users : Table User) (u : User) : Prop where
  administers : u.administers = true
  only : ∀ v ∈ users.rows, v.administers = true → v = u

/-- The only administrator takes the role or the account from himself. -/
inductive LocksOut (D : Deployment) : Event → World → Prop
  | demoted {c : Call} {d d' : Db} {b : Blobs} {u : User} {p : UserRoleUpdate} (caller : CurrentUser c d u)
      (sole : SoleAdministrator d.users u)
      (role : p.role ≠ .admin)
      (stored : Db.putUser D.engine (UserRepository.stamped D c { u with role := p.role }) d = .ok d') :
      LocksOut D (.request ⟨c, .updateRole u.id p⟩) (d, b)
  | deactivated {c : Call} {d d' : Db} {b : Blobs} {u v : User} {p : UserUpdate} (caller : CurrentUser c d u)
      (sole : SoleAdministrator d.users u)
      (errors : p.errors = []) (status : p.isActive = .value false) (free : UserService.EmailFree D d p u)
      (sent : p.setattrs u = .ok v) (stored : Db.putUser D.engine (UserRepository.stamped D c v) d = .ok d') :
      LocksOut D (.request ⟨c, .updateUser u.id p⟩) (d, b)

theorem LocksOut.sole (h : LocksOut D e w) : ∃ u, SoleAdministrator w.1.users u := by
  cases h with
  | demoted caller sole role stored => exact ⟨_, sole⟩
  | deactivated caller sole errors status free sent stored => exact ⟨_, sole⟩

/-! What a flush of a changed row asks of the schema, in both directions. -/

theorem UserRepository.succeeds_flush_of_ne {s t : Session Db Blobs} {r : User} (hne : v ≠ u) :
    (UserRepository.flush D c u v).Succeeds s r t ↔
      r = UserRepository.stamped D c v ∧
        ∃ d', Db.putUser D.engine (UserRepository.stamped D c v) s.working = .ok d' ∧ t = { s with working := d' } := by
  refine succeeds_flushed.trans ?_
  simp only [hne, false_and, false_or, ne_eq, not_false_eq_true, true_and]

theorem updateRole_stored {p : UserRoleUpdate} (h : outcome D ⟨c, .updateRole id p⟩ w = .ok a)
    (found : UserRepository.find id w.1 = some u) (hne : { u with role := p.role } ≠ u) :
    ∃ d', Db.putUser D.engine (UserRepository.stamped D c { u with role := p.role }) w.1 = .ok d' := by
  obtain ⟨t, ht, -⟩ := succeeds_of_outcome h
  simp only [handle, Routes.updateRoleWith, UserService.updateRoleWith, Tx.succeeds_bind, succeeds_getCurrentUser,
    succeeds_requireAdmin, UserRepository.succeeds_get, Tx.succeeds_orRaise] at ht
  obtain ⟨_, _, ⟨-, rfl⟩, _, _, ⟨-, rfl⟩, _, _, ⟨_, _, ⟨rfl, rfl⟩, u', _, ⟨hu, rfl⟩, hflush⟩, -⟩ := ht
  obtain rfl := Option.some.inj (found.symm.trans hu)
  obtain ⟨-, d', hd, -⟩ := (UserRepository.succeeds_flush_of_ne hne).mp hflush
  exact ⟨d', hd⟩

theorem updateUser_stored {p : UserUpdate} (h : outcome D ⟨c, .updateUser id p⟩ w = .ok a)
    (found : UserRepository.find id w.1 = some u) (sent : p.setattrs u = .ok v) (hne : v ≠ u) :
    ∃ d', Db.putUser D.engine (UserRepository.stamped D c v) w.1 = .ok d' := by
  obtain ⟨t, ht, -⟩ := succeeds_of_outcome h
  simp only [handle, Routes.updateUserWith, UserService.updateUserWith, Tx.succeeds_bind, succeeds_getCurrentUser, succeeds_validated,
    Tx.succeeds_refuseIf, UserRepository.succeeds_get, Tx.succeeds_orRaise, UserService.succeeds_checkEmail,
    Tx.succeeds_ofExcept] at ht
  obtain ⟨_, _, ⟨-, rfl⟩, _, _, ⟨-, rfl⟩, _, _, ⟨_, _, ⟨-, rfl⟩, _, _, ⟨rfl, rfl⟩, u', _, ⟨hu, rfl⟩, _, _, ⟨-, rfl⟩,
    _, _, ⟨-, rfl⟩, v', _, ⟨hv, rfl⟩, hflush⟩, -⟩ := ht
  obtain rfl := Option.some.inj (found.symm.trans hu)
  obtain rfl := Except.ok.inj (sent.symm.trans hv)
  obtain ⟨-, d', hd, -⟩ := (UserRepository.succeeds_flush_of_ne hne).mp hflush
  exact ⟨d', hd⟩

theorem UserUpdate.setattrs_inactive {p : UserUpdate} (h : p.setattrs u = .ok v) (hoff : p.isActive = .value false) :
    v.isActive = false := by
  obtain ⟨-, rfl⟩ := setattrs_eq_ok.mp h
  simp [applied, hoff, Field.assignNotNull]

theorem UserUpdate.setattrs_administers {p : UserUpdate} (h : p.setattrs u = .ok v) (hon : p.isActive ≠ .value false)
    (hu : u.administers = true) : v.administers = true := by
  obtain ⟨live, active, admin⟩ := User.administers_iff.mp hu
  obtain ⟨-, rfl⟩ := setattrs_eq_ok.mp h
  refine User.administers_iff.mpr ⟨live, ?_, admin⟩
  cases hp : p.isActive with
  | unset => simpa [applied, hp, Field.assignNotNull] using active
  | null => simpa [applied, hp, Field.assignNotNull] using active
  | value b => cases b with
    | false => exact absurd hp hon
    | true => simp [applied, hp, Field.assignNotNull]

/-! A request that does not lock out keeps an administrator. -/

theorem Administered.append {users : Table User} (h : Administered t) (rows : users.rows = t.rows ++ [v]) :
    Administered users := by
  obtain ⟨u, hu, admin⟩ := h
  exact ⟨u, by simp [rows, hu], admin⟩

theorem Administered.put_other {r : User} (hv : v ∈ t.rows) (admin : v.administers = true) (hid : v.id ≠ r.id) :
    Administered (t.put r) :=
  ⟨v, Table.mem_put.mpr (Or.inl ⟨hv, hid⟩), admin⟩

theorem Administered.put {r : User} (h : Administered t) (hu : u ∈ t.rows) (hid : u.id = r.id)
    (keeps : u.administers = true → r.administers = true) : Administered (t.put r) := by
  obtain ⟨v, hv, admin⟩ := h
  by_cases hvr : v.id = r.id
  · obtain rfl : v = u := t.eq_of_key hv hu (hvr.trans hid.symm)
    exact ⟨r, Table.mem_put_self hv hid, keeps admin⟩
  · exact Administered.put_other hv admin hvr

theorem administers_afterFlush (h : u.administers = true → v.administers = true) :
    u.administers = true → (afterFlush (UserRepository.stamped D c) u v).administers = true :=
  fun hu => (afterFlush_column User.administers rfl).trans (h hu)

theorem Administered.put_or_sole {r : User} (hu : u ∈ t.rows) (hid : u.id = r.id) (admin : u.administers = true) :
    Administered (t.put r) ∨ SoleAdministrator t u := by
  by_cases h : ∃ v ∈ t.rows, v.administers = true ∧ v.id ≠ u.id
  · obtain ⟨v, hv, hadmin, hne⟩ := h
    exact Or.inl (Administered.put_other hv hadmin (hid ▸ hne))
  · refine Or.inr ⟨admin, fun v hv hadmin => ?_⟩
    by_contra hne
    exact h ⟨v, hv, hadmin, fun hvu => hne (t.eq_of_key hv hu hvu)⟩

theorem Administered.request (h : Administered w.1.users) (hlock : ¬LocksOut D (.request i) w) : Administered (next D i w).1.users := by
  have effect := step_effect D i w
  generalize ho : outcome D i w = o at effect
  generalize next D i w = w' at effect ⊢
  cases effect with
  | registered errors policy free hash rows => exact h.append rows
  | userCreated caller admin errors policy free hash rows => exact h.append rows
  | @passwordChanged c d b a p u hashed caller errors verified policy hash =>
    have hid := (UserRepository.afterFlush_id (D := D) (c := c) (u := u) (v := { u with hashedPassword := hashed }) rfl).symm
    exact h.put caller.mem hid (administers_afterFlush fun hu => hu)
  | @userUpdated c d b a id p actor u v caller errors allowed found status free sent =>
    obtain ⟨hu, -, rfl⟩ := UserRepository.find_eq_some.mp found
    have hid : u.id = (afterFlush (UserRepository.stamped D c) u v).id :=
      (UserRepository.afterFlush_id (UserUpdate.setattrs_keeps sent).1).symm
    by_cases hoff : p.isActive = .value false
    · have hadmin := caller.administers (status (by simp [hoff, Field.isSet]))
      by_cases hself : actor.id = u.id
      · -- the acting administrator switches his own account off
        obtain rfl : actor = u := d.users.eq_of_key caller.mem hu hself
        rcases Administered.put_or_sole hu hid hadmin with hkept | hsole
        · exact hkept
        · have hne : v ≠ actor := by
            rintro rfl
            exact absurd (UserUpdate.setattrs_inactive sent hoff) (by simp [caller.active])
          obtain ⟨d', stored⟩ := updateUser_stored ho found sent hne
          exact absurd (.deactivated caller hsole errors hoff free sent stored) hlock
      · exact Administered.put_other caller.mem hadmin (hid ▸ hself)
    · exact h.put hu hid (administers_afterFlush (UserUpdate.setattrs_administers sent hoff))
  | @roleUpdated c d b a id p actor u caller admin found =>
    obtain ⟨hu, -, rfl⟩ := UserRepository.find_eq_some.mp found
    have hid := (UserRepository.afterFlush_id (D := D) (c := c) (u := u) (v := { u with role := p.role }) rfl).symm
    have hadmin := caller.administers admin
    by_cases hrole : p.role = .admin
    · refine h.put hu hid (administers_afterFlush fun hadm => ?_)
      obtain ⟨live, active, -⟩ := User.administers_iff.mp hadm
      exact User.administers_iff.mpr ⟨live, active, hrole⟩
    · by_cases hself : actor.id = u.id
      · obtain rfl : actor = u := d.users.eq_of_key caller.mem hu hself
        rcases Administered.put_or_sole hu hid hadmin with hkept | hsole
        · exact hkept
        · have hne : { actor with role := p.role } ≠ actor := fun heq => hrole ((congrArg User.role heq).trans admin)
          obtain ⟨d', stored⟩ := updateRole_stored ho found hne
          exact absurd (.demoted caller hsole hrole stored) hlock
      · exact Administered.put_other caller.mem hadmin (hid ▸ hself)
  | @userDeleted c d b a id actor u caller admin other found =>
    -- the one guard there is: the caller is not the target
    obtain ⟨hu, -, rfl⟩ := UserRepository.find_eq_some.mp found
    exact Administered.put_other caller.mem (caller.administers admin)
      (fun hid => other (hid.trans (UserRepository.afterFlush_id rfl)).symm)
  | _ => exact h

theorem Administered.step (h : Administered w.1.users) (hlock : ¬LocksOut D e w) : Administered (nextWorld D e w).1.users := by
  cases e with
  | request i => exact h.request hlock
  | seedAdmin c email password fullName =>
    rcases seedAdmin_next (D := D) (w := w) c email password fullName with hw | ⟨hashed, users, -, -, rows, hw⟩ <;> rw [hw]
    · exact h
    · exact h.append rows

/-! A request that locks out, and what follows it. -/

theorem SoleAdministrator.put {r : User} (h : SoleAdministrator t u) (hid : u.id = r.id) (off : r.administers = false) :
    ¬Administered (t.put r) := by
  rintro ⟨v, hv, admin⟩
  rcases Table.of_mem_put hv with rfl | ⟨hv, hne⟩
  · rw [off] at admin
    exact absurd admin (by simp)
  · obtain rfl := h.only v hv admin
    exact hne hid

theorem LocksOut.not_administered (h : LocksOut D e w) : ¬Administered (nextWorld D e w).1.users := by
  cases h with
  | @demoted c d d' b u p caller sole role stored =>
    obtain ⟨-, active, admin⟩ := User.administers_iff.mp sole.administers
    have hne : { u with role := p.role } ≠ u := fun heq => role ((congrArg User.role heq).trans admin)
    have hstep : ∃ a, (Routes.updateRole D c u.id p).Succeeds ⟨d, d, b⟩ a ⟨d, d', b⟩ := by
      simp only [Routes.updateRoleWith, UserService.updateRoleWith, Tx.succeeds_bind, succeeds_getCurrentUser,
        succeeds_requireAdmin, UserRepository.succeeds_get, Tx.succeeds_orRaise, Tx.succeeds_pure]
      exact ⟨_, u, _, ⟨caller, rfl⟩, (), _, ⟨admin, rfl⟩, _, _, ⟨_, _, ⟨rfl, rfl⟩, u, _, ⟨caller.found, rfl⟩,
        (UserRepository.succeeds_flush_of_ne hne).mpr ⟨rfl, d', stored, rfl⟩⟩, rfl, rfl⟩
    obtain ⟨a, hstep⟩ := hstep
    have hnext : nextWorld D (.request ⟨c, .updateRole u.id p⟩) (d, b) = (d', b) :=
      congrArg Prod.snd (Tx.run_of_succeeds hstep)
    rw [hnext, (Db.putUser_ok stored).2]
    exact sole.put rfl (by simp [User.administers, UserRepository.stamped, role])
  | @deactivated c d d' b u v p caller sole errors status free sent stored =>
    obtain ⟨-, active, admin⟩ := User.administers_iff.mp sole.administers
    have hoff := UserUpdate.setattrs_inactive sent status
    have hne : v ≠ u := by
      rintro rfl
      rw [active] at hoff
      exact absurd hoff (by simp)
    have hstep : ∃ a, (Routes.updateUser D c u.id p).Succeeds ⟨d, d, b⟩ a ⟨d, d', b⟩ := by
      simp only [Routes.updateUserWith, UserService.updateUserWith, Tx.succeeds_bind, succeeds_getCurrentUser, succeeds_validated,
        Tx.succeeds_refuseIf, UserRepository.succeeds_get, Tx.succeeds_orRaise, UserService.succeeds_checkEmail,
        Tx.succeeds_ofExcept, Tx.succeeds_pure]
      exact ⟨_, u, _, ⟨caller, rfl⟩, (), _, ⟨errors, rfl⟩, _, _, ⟨(), _, ⟨by simp, rfl⟩, _, _, ⟨rfl, rfl⟩, u, _,
        ⟨caller.found, rfl⟩, (), _, ⟨by simp [admin], rfl⟩, (), _, ⟨free, rfl⟩, v, _, ⟨sent, rfl⟩,
        (UserRepository.succeeds_flush_of_ne hne).mpr ⟨rfl, d', stored, rfl⟩⟩, rfl, rfl⟩
    obtain ⟨a, hstep⟩ := hstep
    have hnext : nextWorld D (.request ⟨c, .updateUser u.id p⟩) (d, b) = (d', b) :=
      congrArg Prod.snd (Tx.run_of_succeeds hstep)
    rw [hnext, (Db.putUser_ok stored).2]
    exact sole.put (UserUpdate.setattrs_keeps sent).1.symm (by simp [User.administers, UserRepository.stamped, hoff])

theorem CurrentUser.administered (h : CurrentUser c d u) (admin : u.role = .admin) : Administered d.users :=
  ⟨u, h.mem, h.administers admin⟩

theorem Administered.of_put {r : User} (h : Administered (t.put r)) (hu : u ∈ t.rows)
    (keeps : r.administers = true → u.administers = true) : Administered t := by
  obtain ⟨v, hv, admin⟩ := h
  rcases Table.of_mem_put hv with rfl | ⟨hv, -⟩
  · exact ⟨u, hu, keeps admin⟩
  · exact ⟨v, hv, admin⟩

theorem Administered.of_request (h : Administered (next D i w).1.users) : Administered w.1.users := by
  have effect := step_effect D i w
  generalize outcome D i w = o at effect
  generalize next D i w = w' at effect h
  have keeps : ∀ {c : Call} {u v : User}, (v.administers = true → u.administers = true) →
      (afterFlush (UserRepository.stamped D c) u v).administers = true → u.administers = true := by
    intro c u v huv hadmin
    exact huv ((afterFlush_column User.administers rfl).symm.trans hadmin)
  cases effect with
  | registered errors policy free hash rows =>
    obtain ⟨v, hv, admin⟩ := h
    rw [rows, List.mem_append, List.mem_singleton] at hv
    rcases hv with hv | rfl
    · exact ⟨v, hv, admin⟩
    · exact absurd admin (by simp [User.administers, newUser])
  | passwordChanged caller errors verified policy hash => exact h.of_put caller.mem (keeps fun hv => hv)
  | userCreated caller admin errors policy free hash rows => exact caller.administered admin
  | @userUpdated c d b a id p actor u v caller errors allowed found status free sent =>
    cases hset : p.isActive.isSet with
    | true => exact caller.administered (status hset)
    | false =>
      rw [UserUpdate.setattrs_of_not_isSet sent (by simp [hset])] at h
      exact h.of_put (UserRepository.find_eq_some.mp found).1 (keeps fun hv => hv)
  | roleUpdated caller admin found => exact caller.administered admin
  | userDeleted caller admin other found => exact caller.administered admin
  | _ => exact h

/-- An administrator remains as long as the only one does not take the role or the account from himself. Every such request
leaves none, and no request ever brings one back. -/
theorem administrator_remains :
    (∀ w es w', Administered w.1.users → Execution D (fun e w => ¬LocksOut D e w) w es w' → Administered w'.1.users) ∧
      (∀ e w, LocksOut D e w → ¬Administered (nextWorld D e w).1.users) ∧
      ∀ i w, ¬Administered w.1.users → ¬Administered (next D i w).1.users := by
  refine ⟨?_, ?_, ?_⟩
  · intro w es w' h run
    exact run.invariant (I := fun w => Administered w.1.users) (fun e w hlock h => h.step hlock) h
  · intro e w h
    exact h.not_administered
  · intro i w h hnext
    exact h hnext.of_request

def successor : List Event :=
  sampleRequests 4 [(some 16, .createUser ⟨"b@c.d", "Passw0rd", "B", .admin⟩), (some 16, .updateRole 16 ⟨.employee⟩)]

theorem administrator_remains_sample :
    ∃ w', Execution .sample (fun e w => ¬LocksOut .sample e w) (playFrom .sample World.initial oneTask) successor w' ∧
      Administered w'.1.users := by
  have run : Execution .sample (fun e w => ¬LocksOut .sample e w) (playFrom .sample World.initial oneTask) successor
      (playFrom .sample World.initial (oneTask ++ successor)) := by
    refine .cons (fun h => ?_) (.cons (fun h => ?_) (.nil _))
    · generalize playFrom .sample World.initial oneTask = w at h
      cases h
    · -- two administrators
      obtain ⟨u, sole⟩ := h.sole
      have two : ∃ v ∈ (playFrom .sample World.initial (oneTask ++ successor.take 1)).1.users.rows,
          ∃ v' ∈ (playFrom .sample World.initial (oneTask ++ successor.take 1)).1.users.rows,
            v.administers = true ∧ v'.administers = true ∧ v ≠ v' := by decide +kernel
      obtain ⟨v, hv, v', hv', admin, admin', hne⟩ := two
      exact hne ((sole.only v hv admin).trans (sole.only v' hv' admin').symm)
  exact ⟨_, run, administrator_remains.1 _ _ _ (by decide +kernel) run⟩

/-- The only administrator gives up the role. -/
theorem administrator_lost : Reachable .sample (playFrom .sample World.initial oneTask) ∧
    Administered (playFrom .sample World.initial oneTask).1.users ∧
    ∃ w', Execution .sample FreshIds (playFrom .sample World.initial oneTask)
      (sampleRequests 4 [(some 16, .updateRole 16 ⟨.employee⟩)]) w' ∧ ¬Administered w'.1.users :=
  ⟨reachable_of_freshRun (by decide +kernel), by decide +kernel, _,
    execution_of_reached (by decide +kernel) (by decide +kernel), by decide +kernel⟩

end ProjectManagement
