import ProjectManagement.System

/-!
Retries. A client that has lost the answer to a write may send it again: apart from the requests that draw a new id or a new
secret, and a status update that asks for the next position, an accepted request changes nothing the second time.
-/

namespace ProjectManagement

open Library

/-- Every read, and every write that names what it writes. -/
def Request.retrySafe : Request → Bool
  | .login .. | .refresh _ | .changePassword _ => false
  | .createProject _ | .createTask _ | .createComment .. | .uploadFile .. => false
  | .updateTaskStatus _ p => p.position.isSome
  | _ => true

section Rows

variable {ρ : Type} [Keyed ρ Uuid] [DecidableEq ρ] {t : Table ρ} {r r' : ρ}

/-- Attributes are set to the values they already have. -/
theorem afterFlush_again (stamp stamp' g : ρ → ρ) (again : ∀ x, g (g x) = g x) (stamped : ∀ x, g (stamp x) = stamp (g x))
    (keyOf : ∀ x, Keyed.key (g x) = Keyed.key x) (keyStamped : ∀ x, Keyed.key (stamp x) = Keyed.key x) (hr : r ∈ t.rows)
    (hr' : r' ∈ (t.put (afterFlush stamp r (g r))).rows) (hkey' : Keyed.key r' = Keyed.key r) :
    afterFlush stamp' r' (g r') = r' := by
  have hkey : Keyed.key (afterFlush stamp r (g r)) = Keyed.key r := (afterFlush_column Keyed.key (keyStamped _)).trans (keyOf r)
  have hsame : r' = afterFlush stamp r (g r) :=
    (t.put _).eq_of_key hr' (Table.mem_put_self hr hkey.symm) (hkey'.trans hkey.symm)
  apply if_pos
  rw [hsame]
  rcases afterFlush_cases stamp r (g r) with hrow | hrow
  · rw [hrow]
    exact again r
  · rw [hrow, stamped, again]

/-- What has been deleted is not found again. -/
theorem not_found_again {stamp : ρ → ρ} {live : ρ → Bool} {gone : ρ} (hr' : r' ∈ (t.put (afterFlush stamp r gone)).rows)
    (hlive : live r' = true) (dead : live gone = false) (liveStamped : live (stamp gone) = live gone)
    (keyOf : Keyed.key gone = Keyed.key r) (keyStamped : Keyed.key (stamp gone) = Keyed.key gone) : Keyed.key r' ≠ Keyed.key r := by
  rcases Table.of_mem_put hr' with rfl | ⟨-, hne⟩
  · rw [afterFlush_column live liveStamped, dead] at hlive
    exact absurd hlive (by simp)
  · rw [afterFlush_column Keyed.key keyStamped, keyOf] at hne
    exact hne

end Rows

section Fields

variable {α : Type} {f : Field α}

theorem Field.assign_again (old : Option α) : f.assign (f.assign old) = f.assign old := by cases f <;> rfl

theorem Field.assignNotNull_again (old : α) : f.assignNotNull (f.assignNotNull old) = f.assignNotNull old := by cases f <;> rfl

theorem UserUpdate.applied_again (p : UserUpdate) (u : User) : p.applied (p.applied u) = p.applied u := by
  simp only [UserUpdate.applied, Field.assignNotNull_again]

theorem ProjectUpdate.applied_again (p : ProjectUpdate) (q : Project) : p.applied (p.applied q) = p.applied q := by
  simp only [ProjectUpdate.applied, Field.assign_again, Field.assignNotNull_again]

theorem TaskUpdate.applied_again (p : TaskUpdate) (r : Task) : p.applied (p.applied r) = p.applied r := by
  simp only [TaskUpdate.applied, Field.assign_again, Field.assignNotNull_again]

end Fields

variable {D : Deployment} {c c' : Call} {w w' v : World} {a : ApiResponse} {o : Outcome} {d : Db}
  {u : User} {email : String}

theorem withEmail_ne_nil (hu : u ∈ d.users.rows) (live : u.live = true) (h : u.email = email) : UserRepository.withEmail email d ≠ [] := by
  intro hnil
  exact List.filter_eq_nil_iff.mp hnil u hu (by simp [live, h])

theorem taskUpdatedEvent_same {actor : User} {p : TaskUpdate} {r : Task} : taskUpdatedEvent d actor p r r = none := by
  simp [taskUpdatedEvent, notifiedAssignee]

theorem readAll_again (userId : Uuid) (ns : Table Notification) :
    NotificationRepository.readAll userId (NotificationRepository.readAll userId ns) = NotificationRepository.readAll userId ns := by
  apply Table.ext
  simp only [NotificationRepository.readAll, Table.updateWhere, List.map_map]
  apply List.map_congr_left
  intro n _
  rw [Function.comp_apply]
  by_cases h : (n.userId == userId && !n.isRead) = true
  · rw [if_pos h, if_neg (by simp)]
  · rw [if_neg h, if_neg h]

theorem CurrentUser.same_id {d' : Db} {u v : User} (h : CurrentUser c d u) (h' : CurrentUser c' d' v) (bearer : c'.bearer = c.bearer) :
    v.id = u.id := by
  obtain ⟨payload, hpayload, hsub⟩ := h.token
  obtain ⟨payload', hpayload', hsub'⟩ := h'.token
  obtain ⟨token, htoken, hdecode⟩ := Option.bind_eq_some_iff.mp hpayload
  obtain ⟨token', htoken', hdecode'⟩ := Option.bind_eq_some_iff.mp hpayload'
  rw [bearer, htoken] at htoken'
  obtain rfl := Option.some.inj htoken'
  unfold decodeAccessToken at hdecode hdecode'
  split at hdecode <;> split at hdecode' <;> simp_all

/-- The same request with the same token, sent again. -/
theorem Effect.retry {request : Request} (first : Effect D ⟨c, request⟩ w (.ok a) w') (safe : request.retrySafe = true)
    (bearer : c'.bearer = c.bearer) (second : Effect D ⟨c', request⟩ w' o v) : v = w' := by
  by_cases hreads : request.reads = true
  · exact second.of_reads hreads
  cases second with
  | rejected => rfl
  | answered reads => exact absurd reads hreads
  | nothingToLogOut => rfl
  | registered errors' policy' free' =>
    cases first with
    | answered reads => exact absurd reads hreads
    | registered errors policy free hash rows =>
      exact absurd free' (withEmail_ne_nil (rows ▸ List.mem_append_right _ (List.mem_singleton_self _)) rfl rfl)
  | userCreated caller' admin' errors' policy' free' =>
    cases first with
    | answered reads => exact absurd reads hreads
    | userCreated caller admin errors policy free hash rows =>
      exact absurd free' (withEmail_ne_nil (rows ▸ List.mem_append_right _ (List.mem_singleton_self _)) rfl rfl)
  | loggedOut presented' live' =>
    cases first with
    | answered reads => exact absurd reads hreads
    | nothingToLogOut presented =>
      have hrevoked := presented _ (by rw [presented']; exact List.mem_singleton_self _)
      rw [live'] at hrevoked
      exact absurd hrevoked (by simp)
    | loggedOut presented live =>
      obtain ⟨hr', hash'⟩ := RefreshTokenRepository.withHash_eq_singleton presented'
      rcases Table.of_mem_put hr' with rfl | ⟨hr', hne⟩
      · exact absurd live' (by simp [RefreshTokenRepository.revoked])
      · have hmem : _ ∈ RefreshTokenRepository.withHash _ _ := List.mem_filter.mpr ⟨hr', beq_iff_eq.mpr hash'⟩
        rw [presented, List.mem_singleton] at hmem
        exact absurd (congrArg RefreshToken.id hmem) hne
  | @userUpdated _ _ _ _ _ p _ _ _ caller' errors' allowed' found' status' free' sent' =>
    cases first with
    | answered reads => exact absurd reads hreads
    | userUpdated caller errors allowed found status free sent =>
      obtain ⟨-, rfl⟩ := UserUpdate.setattrs_eq_ok.mp sent
      obtain ⟨-, rfl⟩ := UserUpdate.setattrs_eq_ok.mp sent'
      obtain ⟨hu, -, hid⟩ := UserRepository.find_eq_some.mp found
      obtain ⟨hu', -, hid'⟩ := UserRepository.find_eq_some.mp found'
      have hagain := (afterFlush_again (UserRepository.stamped D c) (UserRepository.stamped D c') p.applied p.applied_again
        (fun _ => rfl) (fun _ => rfl) (fun _ => rfl) hu hu' (hid'.trans hid.symm))
      rw [hagain, Table.put_of_mem hu']
  | @roleUpdated _ _ _ _ _ p _ _ caller' admin' found' =>
    cases first with
    | answered reads => exact absurd reads hreads
    | roleUpdated caller admin found =>
      obtain ⟨hu, -, hid⟩ := UserRepository.find_eq_some.mp found
      obtain ⟨hu', -, hid'⟩ := UserRepository.find_eq_some.mp found'
      have hagain := (afterFlush_again (UserRepository.stamped D c) (UserRepository.stamped D c') (fun u => { u with role := p.role })
        (fun _ => rfl) (fun _ => rfl) (fun _ => rfl) (fun _ => rfl) hu hu' (hid'.trans hid.symm))
      rw [hagain, Table.put_of_mem hu']
  | userDeleted caller' admin' other' found' =>
    cases first with
    | answered reads => exact absurd reads hreads
    | userDeleted caller admin other found =>
      obtain ⟨-, -, hid⟩ := UserRepository.find_eq_some.mp found
      obtain ⟨hu', hlive', hid'⟩ := UserRepository.find_eq_some.mp found'
      exact absurd (hid'.trans hid.symm) (not_found_again hu' hlive' rfl rfl rfl rfl)
  | @projectUpdated _ _ _ _ _ p _ _ _ caller' admin' errors' found' sent' =>
    cases first with
    | answered reads => exact absurd reads hreads
    | projectUpdated caller admin errors found sent =>
      obtain ⟨-, rfl⟩ := ProjectUpdate.setattrs_eq_ok.mp sent
      obtain ⟨-, rfl⟩ := ProjectUpdate.setattrs_eq_ok.mp sent'
      obtain ⟨hq, -, hid⟩ := ProjectRepository.find_eq_some.mp found
      obtain ⟨hq', -, hid'⟩ := ProjectRepository.find_eq_some.mp found'
      have hagain := (afterFlush_again (ProjectRepository.stamped D c) (ProjectRepository.stamped D c') p.applied p.applied_again
        (fun _ => rfl) (fun _ => rfl) (fun _ => rfl) hq hq' (hid'.trans hid.symm))
      rw [hagain, Table.put_of_mem hq']
  | projectDeleted caller' admin' found' =>
    cases first with
    | answered reads => exact absurd reads hreads
    | projectDeleted caller admin found =>
      obtain ⟨-, -, hid⟩ := ProjectRepository.find_eq_some.mp found
      obtain ⟨hq', hlive', hid'⟩ := ProjectRepository.find_eq_some.mp found'
      exact absurd (hid'.trans hid.symm) (not_found_again hq' hlive' rfl rfl rfl rfl)
  | @memberAdded _ _ _ _ id p _ _ _ _ _ caller' admin' found' user' new' =>
    cases first with
    | answered reads => exact absurd reads hreads
    | @memberAdded _ _ _ _ _ _ _ _ _ members _ caller admin found user new rows notified =>
      have hmem : (⟨c.fresh.id, id, p.userId, p.role⟩ : ProjectMember) ∈ members.rows :=
        rows ▸ List.mem_append_right _ (List.mem_singleton_self _)
      exact absurd (List.filter_eq_nil_iff.mp new' _ hmem) (by simp)
  | memberRemoved caller' admin' member' =>
    cases first with
    | answered reads => exact absurd reads hreads
    | memberRemoved caller admin member =>
      have hm' := List.mem_filter.mp (show _ ∈ ProjectRepository.memberRows _ _ _ from member' ▸ List.mem_singleton_self _)
      obtain ⟨hold, hne⟩ := Table.mem_deleteWhere.mp hm'.1
      have hm : _ ∈ ProjectRepository.memberRows _ _ _ := List.mem_filter.mpr ⟨hold, hm'.2⟩
      rw [member, List.mem_singleton] at hm
      rw [hm] at hne
      exact absurd hne (by simp)
  | @taskUpdated _ _ _ _ _ p _ _ _ _ caller' task' errors' sent' notified' =>
    cases first with
    | answered reads => exact absurd reads hreads
    | taskUpdated caller task errors sent notified =>
      obtain ⟨-, rfl⟩ := TaskUpdate.setattrs_eq_ok.mp sent
      obtain ⟨-, rfl⟩ := TaskUpdate.setattrs_eq_ok.mp sent'
      have hagain := afterFlush_again (TaskRepository.stamped D c) (TaskRepository.stamped D c') p.applied p.applied_again
        (fun _ => rfl) (fun _ => rfl) (fun _ => rfl) task.mem task'.mem (task'.id_eq.trans task.id_eq.symm)
      rw [hagain, taskUpdatedEvent_same, Notified, Option.map_none, Option.toList_none, List.append_nil] at notified'
      rw [hagain, Table.put_of_mem task'.mem, Table.ext notified']
  | @taskStatusUpdated _ _ _ _ _ p _ _ caller' task' =>
    cases first with
    | answered reads => exact absurd reads hreads
    | taskStatusUpdated caller task =>
      obtain ⟨x, hx⟩ := Option.isSome_iff_exists.mp safe
      have hsent (d : Db) (r : Task) : statusUpdated d p r = { r with status := p.status, position := x } := by
        simp only [statusUpdated, hx, Option.getD_some]
      have hmem := task'.mem
      simp only [hsent] at hmem ⊢
      have hagain := afterFlush_again (TaskRepository.stamped D c) (TaskRepository.stamped D c')
        (fun r => { r with status := p.status, position := x }) (fun _ => rfl) (fun _ => rfl) (fun _ => rfl) (fun _ => rfl)
        task.mem hmem (task'.id_eq.trans task.id_eq.symm)
      rw [hagain, Table.put_of_mem hmem]
  | taskDeleted caller' task' =>
    cases first with
    | answered reads => exact absurd reads hreads
    | taskDeleted caller task =>
      exact absurd (task'.id_eq.trans task.id_eq.symm)
        (not_found_again task'.mem task'.live rfl rfl rfl rfl)
  | @commentUpdated _ _ _ _ _ p _ _ _ caller' errors' found' task' owned' =>
    cases first with
    | answered reads => exact absurd reads hreads
    | commentUpdated caller errors found task owned =>
      obtain ⟨hm, -, hid⟩ := CommentRepository.find_eq_some.mp found
      obtain ⟨hm', -, hid'⟩ := CommentRepository.find_eq_some.mp found'
      have hagain := (afterFlush_again (CommentRepository.stamped D c) (CommentRepository.stamped D c')
        (fun m => { m with content := p.content }) (fun _ => rfl) (fun _ => rfl) (fun _ => rfl) (fun _ => rfl) hm hm'
        (hid'.trans hid.symm))
      rw [hagain, Table.put_of_mem hm']
  | commentDeleted caller' found' task' owned' =>
    cases first with
    | answered reads => exact absurd reads hreads
    | commentDeleted caller found task owned =>
      obtain ⟨-, -, hid⟩ := CommentRepository.find_eq_some.mp found
      obtain ⟨hm', hlive', hid'⟩ := CommentRepository.find_eq_some.mp found'
      exact absurd (hid'.trans hid.symm) (not_found_again hm' hlive' rfl rfl rfl rfl)
  | notificationRead caller' found' own' =>
    cases first with
    | answered reads => exact absurd reads hreads
    | notificationRead caller found own =>
      obtain ⟨hn, hid⟩ := NotificationRepository.find_eq_some.mp found
      obtain ⟨hn', hid'⟩ := NotificationRepository.find_eq_some.mp found'
      rcases Table.of_mem_put hn' with rfl | ⟨-, hne⟩
      · rw [Table.put_of_mem hn']
      · exact absurd (hid'.trans hid.symm) hne
  | allNotificationsRead caller' =>
    cases first with
    | answered reads => exact absurd reads hreads
    | allNotificationsRead caller =>
      rw [caller.same_id caller' bearer, readAll_again]
  | loggedIn => exact absurd safe (by simp [Request.retrySafe])
  | rotated => exact absurd safe (by simp [Request.retrySafe])
  | reuseDetected => exact absurd safe (by simp [Request.retrySafe])
  | passwordChanged => exact absurd safe (by simp [Request.retrySafe])
  | projectCreated => exact absurd safe (by simp [Request.retrySafe])
  | taskCreated => exact absurd safe (by simp [Request.retrySafe])
  | commentCreated => exact absurd safe (by simp [Request.retrySafe])
  | fileUploaded => exact absurd safe (by simp [Request.retrySafe])
  | uploadFailed => exact absurd safe (by simp [Request.retrySafe])

/-- Sent again with the same token, any number of times and whenever, an accepted request changes nothing more. -/
theorem retries_change_nothing {request : Request} (accepted : outcome D ⟨c, request⟩ w = .ok a) (safe : request.retrySafe = true)
    (retries : List Call) (same : ∀ c' ∈ retries, c'.bearer = c.bearer) :
    retries.foldl (fun w c' => next D ⟨c', request⟩ w) (next D ⟨c, request⟩ w) = next D ⟨c, request⟩ w := by
  have first := step_effect D ⟨c, request⟩ w
  rw [accepted] at first
  induction retries with
  | nil => rfl
  | cons c' retries ih =>
    have hsame := first.retry safe (same c' List.mem_cons_self) (step_effect D ⟨c', request⟩ (next D ⟨c, request⟩ w))
    rw [List.foldl_cons, hsame]
    exact ih fun c'' h => same c'' (List.mem_cons_of_mem c' h)

def reassigns : Request := .updateTask 48 { title := .value "U", assigneeId := .value 16 }

theorem retries_change_nothing_sample :
    next .sample ⟨Call.sample 6 (some 16), reassigns⟩ (next .sample ⟨Call.sample 5 (some 16), reassigns⟩
      (next .sample ⟨Call.sample 4 (some 16), reassigns⟩ (playFrom .sample World.initial oneTask))) =
    next .sample ⟨Call.sample 4 (some 16), reassigns⟩ (playFrom .sample World.initial oneTask) := by
  have accepted : (outcome .sample ⟨Call.sample 4 (some 16), reassigns⟩ (playFrom .sample World.initial oneTask)).isOk = true := by
    decide +kernel
  obtain ⟨a, ha⟩ := exists_of_isOk accepted
  exact retries_change_nothing ha rfl [Call.sample 5 (some 16), Call.sample 6 (some 16)] (by decide +kernel)

end ProjectManagement
