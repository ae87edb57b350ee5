import ProjectManagement.Library.Provenance
import ProjectManagement.System

/-!
Where administrators come from: the seed script, and from then on administrators.
-/

namespace ProjectManagement

open Library

variable {D : Deployment} {e : Event} {w : World} {u v : User} {t : Table User} {id : Uuid} {es : List Event}

def IsAdmin (users : Table User) (id : Uuid) : Prop := ∃ u ∈ users.rows, u.id = id ∧ u.role = .admin

/-- The seed script adds its account. -/
inductive Seeds : Event → World → Uuid → Prop
  | seed {c email password fullName w} (free : UserRepository.withEmail email w.1 = []) :
      Seeds (.seedAdmin c email password fullName) w c.fresh.id

/-- The caller, an administrator, makes an account one. -/
inductive Appoints (D : Deployment) : Event → World → Uuid → Uuid → Prop
  | created {c p w actor a} (caller : CurrentUser c w.1 actor) (admin : actor.role = .admin) (role : p.role = .admin)
      (accepted : outcome D ⟨c, .createUser p⟩ w = .ok a) :
      Appoints D (.request ⟨c, .createUser p⟩) w actor.id c.fresh.id
  | promoted {c id p w actor a} (caller : CurrentUser c w.1 actor) (admin : actor.role = .admin) (role : p.role = .admin)
      (accepted : outcome D ⟨c, .updateRole id p⟩ w = .ok a) :
      Appoints D (.request ⟨c, .updateRole id p⟩) w actor.id id

abbrev Appointed (D : Deployment) : List Event → Uuid → Prop := Descends (nextWorld D) Seeds (Appoints D) World.initial

theorem CurrentUser.isAdmin {c : Call} {d : Db} (h : CurrentUser c d u) (admin : u.role = .admin) : IsAdmin d.users u.id :=
  ⟨u, h.mem, rfl, admin⟩

theorem IsAdmin.of_append {users : Table User} (rows : users.rows = t.rows ++ [v]) (h : IsAdmin users id) :
    IsAdmin t id ∨ v.id = id ∧ v.role = .admin := by
  obtain ⟨u, hu, hid, hrole⟩ := h
  rw [rows, List.mem_append, List.mem_singleton] at hu
  rcases hu with hu | rfl
  · exact Or.inl ⟨u, hu, hid, hrole⟩
  · exact Or.inr ⟨hid, hrole⟩

theorem IsAdmin.of_put (h : IsAdmin (t.put v) id) : IsAdmin t id ∨ v.id = id ∧ v.role = .admin := by
  obtain ⟨u, hu, hid, hrole⟩ := h
  rcases Table.of_mem_put hu with rfl | ⟨hu, -⟩
  · exact Or.inr ⟨hid, hrole⟩
  · exact Or.inl ⟨u, hu, hid, hrole⟩

/-- A flush that leaves the role as it was. -/
theorem IsAdmin.of_flush {c : Call} (hu : u ∈ t.rows) (hid : v.id = u.id) (hrole : v.role = u.role)
    (h : IsAdmin (t.put (afterFlush (UserRepository.stamped D c) u v)) id) : IsAdmin t id := by
  rcases h.of_put with h | ⟨hkey, hadmin⟩
  · exact h
  · rw [afterFlush_column User.id rfl, hid] at hkey
    rw [afterFlush_column User.role rfl, hrole] at hadmin
    exact ⟨u, hu, hkey, hadmin⟩

theorem UserUpdate.setattrs_role {p : UserUpdate} (h : p.setattrs u = .ok v) : v.id = u.id ∧ v.role = u.role := by
  obtain ⟨-, rfl⟩ := setattrs_eq_ok.mp h
  exact ⟨rfl, rfl⟩

theorem IsAdmin.step (h : IsAdmin (nextWorld D e w).1.users id) :
    IsAdmin w.1.users id ∨ Seeds e w id ∨ ∃ actor, IsAdmin w.1.users actor ∧ Appoints D e w actor id := by
  cases e with
  | seedAdmin c email password fullName =>
    rcases seedAdmin_next (D := D) (w := w) c email password fullName with hw | ⟨hashed, users, free, -, rows, hw⟩
    · rw [hw] at h
      exact Or.inl h
    · rw [hw] at h
      rcases h.of_append rows with h | ⟨rfl, -⟩
      · exact Or.inl h
      · exact Or.inr (Or.inl (.seed free))
  | request i =>
    have effect := step_effect D i w
    change IsAdmin (next D i w).1.users id at h
    generalize ho : outcome D i w = o at effect
    generalize next D i w = w' at effect h
    cases effect with
    | registered errors policy free hash rows =>
      rcases h.of_append rows with h | ⟨-, hrole⟩
      · exact Or.inl h
      · exact absurd hrole (by simp [newUser])
    | userCreated caller admin errors policy free hash rows =>
      rcases h.of_append rows with h | ⟨rfl, hrole⟩
      · exact Or.inl h
      · exact Or.inr (Or.inr ⟨_, caller.isAdmin admin, .created caller admin hrole ho⟩)
    | passwordChanged caller => exact Or.inl (IsAdmin.of_flush caller.mem (by rfl) (by rfl) h)
    | userUpdated caller errors allowed found status free sent =>
      obtain ⟨hid, hrole⟩ := UserUpdate.setattrs_role sent
      exact Or.inl (h.of_flush (UserRepository.find_eq_some.mp found).1 hid hrole)
    | roleUpdated caller admin found =>
      rcases h.of_put with h | ⟨hkey, hrole⟩
      · exact Or.inl h
      · rw [afterFlush_column User.id rfl] at hkey
        rw [afterFlush_column User.role rfl] at hrole
        obtain rfl : _ = id := (UserRepository.find_eq_some.mp found).2.2.symm.trans hkey
        exact Or.inr (Or.inr ⟨_, caller.isAdmin admin, .promoted caller admin hrole ho⟩)
    | userDeleted caller admin other found => exact Or.inl (IsAdmin.of_flush (UserRepository.find_eq_some.mp found).1 (by rfl) (by rfl) h)
    | _ => exact Or.inl h

/-- Every administrator has been appointed by one, all the way back to an account of the seed script. -/
theorem administrators_appointed (h : IsAdmin (playFrom D World.initial es).1.users id) : Appointed D es id ∧
    ∃ earlier c email password fullName later, es = earlier ++ .seedAdmin c email password fullName :: later ∧
      UserRepository.withEmail email (playFrom D World.initial earlier).1 = [] := by
  have appointed : Appointed D es id :=
    Descends.of_reached (fun w id => IsAdmin w.1.users id) (by simp [IsAdmin, World.initial, Db.empty, Table.empty])
      (fun _ _ _ h => h.step) es id h
  refine ⟨appointed, ?_⟩
  obtain ⟨earlier, e, later, k, rfl, ⟨free⟩, -⟩ := appointed.exists_root (f := fun _ => ()) fun _ _ _ _ _ => rfl
  exact ⟨earlier, _, _, _, _, later, rfl, free⟩

def promotedEmployee : List Event :=
  oneTask ++ sampleRequests 4 [(none, .register ⟨"a@b.c", "Passw0rd", "A"⟩), (some 16, .updateRole 64 ⟨.admin⟩)]

theorem administrators_appointed_sample : IsAdmin (playFrom .sample World.initial promotedEmployee).1.users 64 ∧
    Appointed .sample promotedEmployee 64 := by
  have h : IsAdmin (playFrom .sample World.initial promotedEmployee).1.users 64 := by
    unfold IsAdmin
    decide +kernel
  exact ⟨h, (administrators_appointed h).1⟩

end ProjectManagement
