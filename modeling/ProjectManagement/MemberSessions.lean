import ProjectManagement.Authentication
import ProjectManagement.Library.UniqueIndex
import ProjectManagement.ProjectVisibility
import ProjectManagement.Raises
import ProjectManagement.Schema
import ProjectManagement.WriteSet

/-!
Concurrent additions and removals of members, statement by statement. The notification of an addition is written in the
transaction that adds the member: there is one for each addition that is accepted, and none for one that is refused.
-/

namespace ProjectManagement

open Library Library.UniqueIndex

inductive MemberKey
  | member (id : Uuid)
  | pair (projectId userId : Uuid)
  | notification (id : Uuid)
  deriving DecidableEq

inductive MemberRequest
  | add (projectId : Uuid) (payload : MemberAdd)
  | remove (projectId userId : Uuid)

def MemberRequest.request : MemberRequest → Request
  | add projectId p => .addMember projectId p
  | remove projectId userId => .removeMember projectId userId

/-- What an addition writes. -/
structure Joining where
  member : ProjectMember
  notification : Notification

inductive MemberPhase
  | start
  | entitled (actor : User)
  | located (joining : Joining)
  | eligible (joining : Joining)
  | vacant (joining : Joining)
  | claimed (joining : Joining)
  | inserted (joining : Joining)
  | notified (joining : Joining)
  | targeted (member : ProjectMember)
  | answered (member : ProjectMember) (response : ApiResponse)
  | done (member : ProjectMember) (response : ApiResponse)
  | failed (e : Raised)

section Statements

variable (D : Deployment) (c : Call)

def entitleAdmin : App User := do
  let actor ← getCurrentUser c
  requireAdmin actor
  pure actor

def locate (projectId : Uuid) : App Project := do
  let found ← ProjectRepository.get projectId
  Tx.orRaise found (.app (notFoundError "Project not found"))

def checkUser (userId : Uuid) : App Unit := do
  let user ← UserRepository.get userId
  Tx.refuseIf (user = none) (.app (notFoundError "User not found"))

def checkVacant (m : ProjectMember) : App Unit := do
  let already ← ProjectRepository.isMember m.projectId m.userId
  Tx.refuseIf (already = true) (.app (conflictError "User is already a member of this project" .alreadyMember))

def joining (project : Project) (projectId : Uuid) (p : MemberAdd) (actor : User) : Joining where
  member := ⟨c.fresh.id, projectId, p.userId, p.role⟩
  notification := (DomainEvent.memberAddedToProject projectId project.name p.userId actor.id).notification D c

def reloadMember (m : ProjectMember) : App ApiResponse := do
  let found ← ProjectRepository.getMember m.projectId m.userId
  let loaded ← Tx.orRaise found .unexpected
  let member ← Tx.orRaise (MemberOut.modelValidate loaded) .unexpected
  pure { statusCode := 201, message := some "Member added", data := .member member }

def targetMember (projectId userId : Uuid) : App ProjectMember := do
  let found ← ProjectRepository.getMember projectId userId
  let member ← Tx.orRaise found (.app (notFoundError "Member not found"))
  pure member.row

def awaitMember (m : ProjectMember) : Write Db MemberKey := ⟨[.member m.id, .pair m.projectId m.userId], id⟩

def insertMemberStatement (m : ProjectMember) : Write Db MemberKey :=
  ⟨[.member m.id, .pair m.projectId m.userId], fun d => { d with projectMembers := d.projectMembers.inserted m }⟩

def noticeStatement (n : Notification) : Write Db MemberKey :=
  ⟨[.notification n.id], fun d => { d with notifications := d.notifications.inserted n }⟩

/-- `DELETE FROM project_members WHERE id = ...`; it may find the row gone. -/
def deleteMemberStatement (m : ProjectMember) : Write Db MemberKey :=
  ⟨[.member m.id, .pair m.projectId m.userId], fun d =>
    { d with projectMembers := d.projectMembers.deleteWhere fun r => r.id == m.id }⟩

def MemberPhase.next (request : MemberRequest) : MemberPhase → Db → Action Db MemberKey MemberPhase
  | start, d =>
    match read (entitleAdmin c) d with
    | .ok actor => .read (entitled actor)
    | .error e => .rollback (failed e)
  | entitled actor, d =>
    match request with
    | .add projectId p =>
      match read (locate projectId) d with
      | .ok project => .read (located (joining D c project projectId p actor))
      | .error e => .rollback (failed e)
    | .remove projectId userId =>
      match read (targetMember projectId userId) d with
      | .ok m => .read (targeted m)
      | .error e => .rollback (failed e)
  | located j, d =>
    match read (checkUser j.member.userId) d with
    | .ok _ => .read (eligible j)
    | .error e => .rollback (failed e)
  | eligible j, d =>
    match read (checkVacant j.member) d with
    | .ok _ => .read (vacant j)
    | .error e => .rollback (failed e)
  | vacant j, _ => .write (awaitMember j.member) (claimed j)
  | claimed j, d =>
    match Db.insertProjectMember D.engine j.member d with
    | .ok _ => .write (insertMemberStatement j.member) (inserted j)
    | .error e => .rollback (failed e)
  | inserted j, d =>
    match Db.insertNotification D.engine j.notification d with
    | .ok _ => .write (noticeStatement j.notification) (notified j)
    | .error e => .rollback (failed e)
  | notified j, d =>
    match read (reloadMember j.member) d with
    | .ok r => .read (answered j.member r)
    | .error e => .rollback (failed e)
  | targeted m, _ => .write (deleteMemberStatement m) (answered m noContent)
  | answered m r, _ => .commit (done m r)
  | done _ _, _ => .stop
  | failed _, _ => .stop

end Statements

section Requests

variable {ι : Type} [DecidableEq ι] (D : Deployment) (calls : ι → Call) (requests : ι → MemberRequest)

abbrev MemberSessions (ι : Type) := Sessions ι Db MemberKey MemberPhase

abbrev memberStatements (i : ι) : MemberPhase → Db → Action Db MemberKey MemberPhase :=
  MemberPhase.next D (calls i) (requests i)

def runMembers (d : Db) (schedule : List ι) : MemberSessions ι :=
  (Sessions.start d .start).play (memberStatements D calls requests) schedule

end Requests

/-! The statements of a request are those of its route, in the same order. -/

section Routes

variable {D : Deployment} {c : Call}

theorem handle_addMember (projectId : Uuid) (p : MemberAdd) : handle D c (.addMember projectId p) = (do
    let actor ← entitleAdmin c
    let project ← locate projectId
    let j := joining D c project projectId p actor
    checkUser j.member.userId
    checkVacant j.member
    ProjectRepository.addMember D j.member
    NotificationRepository.add D j.notification
    reloadMember j.member) := by
  simp only [handle, Routes.addMember, ProjectService.addMember, entitleAdmin, locate, checkUser, checkVacant, joining, reloadMember,
    EventBus.publish_eq, bind_assoc, pure_bind]

theorem handle_removeMember (projectId userId : Uuid) : handle D c (.removeMember projectId userId) = (do
    let _ ← entitleAdmin c
    let m ← targetMember projectId userId
    ProjectRepository.removeMember m
    pure noContent) := by
  simp only [handle, Routes.removeMember, ProjectService.removeMember, entitleAdmin, targetMember, bind_assoc, pure_bind]

end Routes

/-! The unique constraint. -/

def memberPairs : UniqueIndex Db MemberKey ProjectMember (Uuid × Uuid) where
  table := Db.projectMembers
  live := fun _ => true
  column := fun m => (m.projectId, m.userId)
  row := .member
  entry := fun k => .pair k.1 k.2

section Guards

variable {D : Deployment} {c : Call} {request : MemberRequest} {d d' : Db} {m : ProjectMember} {engine : Engine}
  {p q : MemberPhase} {w : Write Db MemberKey}

theorem memberPairs_holds : memberPairs.Holds d ↔ UniqueMembers d := by
  constructor
  · intro h m hm m' hm' hproject huser
    exact h m hm rfl m' hm' rfl (Prod.ext hproject huser)
  · intro h m hm _ m' hm' _ hcolumn
    exact h m hm m' hm' (congrArg Prod.fst hcolumn) (congrArg Prod.snd hcolumn)

theorem guarded_insertMember (h : Db.insertProjectMember engine m d = .ok d') : memberPairs.Guarded d (insertMemberStatement m) := by
  obtain ⟨hnew, -⟩ := Db.insertProjectMember_ok h
  have hlookup : d.projectMembers.lookup m.id = none := Table.lookup_eq_none.mpr fun v hv => (hnew v hv).1
  have touches : memberPairs.Touches (insertMemberStatement m).run m.id fun o => some (o.getD m) :=
    fun _ _ => Table.lookup_inserted
  apply touches.guarded
  · simp [insertMemberStatement, memberPairs]
  · intro x hx _
    simp only [memberPairs, hlookup, Option.getD_none, Option.some.injEq] at hx
    simp [insertMemberStatement, memberPairs, hx]
  · intro x hx _ v hv _ _ hcolumn
    simp only [memberPairs, hlookup, Option.getD_none, Option.some.injEq] at hx
    subst hx
    exact (hnew v hv).2 ⟨congrArg Prod.fst hcolumn, congrArg Prod.snd hcolumn⟩

theorem guarded_deleteMember : memberPairs.Guarded d (deleteMemberStatement m) := by
  have touches : memberPairs.Touches (deleteMemberStatement m).run m.id fun _ => none := fun _ _ => Table.lookup_deleteWhere
  apply touches.guarded
  · simp [deleteMemberStatement, memberPairs]
  · exact fun x hx => absurd hx (by simp)
  · exact fun x hx => absurd hx (by simp)

theorem MemberPhase.guarded (h : MemberPhase.next D c request p d = .write w q) : memberPairs.Guarded d w := by
  cases p with
  | vacant j =>
    obtain ⟨rfl, -⟩ := Action.write.inj h
    exact guarded_of_idle fun _ => rfl
  | claimed j =>
    simp only [MemberPhase.next] at h
    split at h
    · next hinsert =>
      obtain ⟨rfl, -⟩ := Action.write.inj h
      exact guarded_insertMember hinsert
    · exact absurd h (by simp)
  | inserted j =>
    simp only [MemberPhase.next] at h
    split at h
    · obtain ⟨rfl, -⟩ := Action.write.inj h
      exact guarded_of_idle fun _ => rfl
    · exact absurd h (by simp)
  | targeted m =>
    obtain ⟨rfl, -⟩ := Action.write.inj h
    exact guarded_deleteMember
  | entitled actor =>
    simp only [MemberPhase.next] at h
    split at h
    · split at h <;> exact absurd h (by simp)
    · split at h <;> exact absurd h (by simp)
  | start | located j | eligible j | notified j =>
    simp only [MemberPhase.next] at h
    split at h <;> exact absurd h (by simp)
  | answered m r | done m r | failed e => exact absurd h (by simp [MemberPhase.next])

end Guards

/-! What the statements of one request have found, and why one is refused. -/

section OneRequest

variable {D : Deployment} {c : Call} {a : MemberRequest} {d d' : Db} {m : ProjectMember} {e : Raised} {projectId userId : Uuid}
  {j : Joining} {b : Blobs}

theorem locate_ok {project : Project} (h : read (locate projectId) d = .ok project) :
    ProjectRepository.find projectId d = some project := by
  obtain ⟨t, ht⟩ := Tx.answer_eq_ok.mp h
  simp only [locate, Tx.succeeds_bind, ProjectRepository.succeeds_get, Tx.succeeds_orRaise] at ht
  obtain ⟨o, -, ⟨rfl, rfl⟩, found, -⟩ := ht
  exact found

theorem checkUser_ok (h : read (checkUser userId) d = .ok ()) : Known d.users userId := by
  obtain ⟨t, ht⟩ := Tx.answer_eq_ok.mp h
  simp only [checkUser, Tx.succeeds_bind, UserRepository.succeeds_get, Tx.succeeds_refuseIf] at ht
  obtain ⟨o, -, ⟨rfl, rfl⟩, some, -⟩ := ht
  obtain ⟨u, hu⟩ := Option.ne_none_iff_exists'.mp some
  obtain ⟨hmem, -, hid⟩ := UserRepository.find_eq_some.mp hu
  exact ⟨u, hmem, hid⟩

theorem targetMember_ok (h : read (targetMember projectId userId) d = .ok m) : m ∈ d.projectMembers.rows := by
  obtain ⟨t, ht⟩ := Tx.answer_eq_ok.mp h
  simp only [targetMember, Tx.succeeds_bind, ProjectRepository.succeeds_getMember, Tx.succeeds_orRaise, Tx.succeeds_pure] at ht
  obtain ⟨o, -, ⟨hfound, rfl⟩, l, -, ⟨rfl, rfl⟩, rfl, -⟩ := ht
  cases hrows : scalarOneOrNone (ProjectRepository.memberRows projectId userId d) with
  | error e =>
    rw [hrows] at hfound
    exact absurd hfound (by simp [Except.map])
  | ok o =>
    rw [hrows] at hfound
    obtain ⟨m, rfl, rfl⟩ := Option.map_eq_some_iff.mp (Except.ok.inj hfound)
    exact (ProjectRepository.memberRows_eq_singleton (scalarOneOrNone_some.mp hrows)).1

/-- Errors that tell of a membership only where there is one. -/
def NoConflict (d : Db) (m : ProjectMember) : Set Raised := {e | e.response.statusCode = 409 → IsMember d m.projectId m.userId}

theorem entitleAdmin_refused (h : read (entitleAdmin c) d = .error e) : e.response.statusCode ≠ 409 := by
  refine read_error (E := {e | e.response.statusCode ≠ 409}) (fun b => ?_) h
  refine .bind ((getCurrentUser_raisesIn _).mono fun e he => ?_) fun _ _ _ =>
    .bind (Tx.raisesAt_refuseIf fun _ => by simp [Raised.response, forbiddenError]) fun _ _ _ => Tx.raisesIn_pure _ _
  exact fun h409 => absurd (he.symm.trans h409) (by decide)

theorem locate_refused (h : read (locate projectId) d = .error e) : e.response.statusCode ≠ 409 :=
  read_error (E := {e | e.response.statusCode ≠ 409})
    (fun _ => .bind (Tx.raisesIn_query _ _) fun _ _ _ => Tx.raisesAt_orRaise fun _ => by simp [Raised.response, notFoundError]) h

theorem checkUser_refused (h : read (checkUser userId) d = .error e) : e.response.statusCode ≠ 409 :=
  read_error (E := {e | e.response.statusCode ≠ 409})
    (fun _ => .bind (Tx.raisesIn_query _ _) fun _ _ _ => Tx.raisesAt_refuseIf fun _ => by simp [Raised.response, notFoundError]) h

theorem memberLookup_unexpected {o : Except Raised (Option ProjectMember)} {α : Type} {f : Option ProjectMember → α}
    (ho : o = scalarOneOrNone (ProjectRepository.memberRows projectId userId d)) (h : o.map f = .error e) : e = .unexpected := by
  cases hrows : scalarOneOrNone (ProjectRepository.memberRows projectId userId d) with
  | error e' =>
    rw [ho, hrows] at h
    rw [← Except.error.inj h]
    exact (scalarOneOrNone_error hrows).1
  | ok o' =>
    rw [ho, hrows] at h
    exact absurd h (by simp [Except.map])

theorem targetMember_refused (h : read (targetMember projectId userId) d = .error e) : e.response.statusCode ≠ 409 := by
  refine read_error (E := {e | e.response.statusCode ≠ 409}) (fun b => ?_) h
  refine .bind (Tx.raisesAt_select fun e he => ?_) fun _ _ _ => .bind (Tx.raisesAt_orRaise fun _ => by simp [Raised.response, notFoundError])
    fun _ _ _ => Tx.raisesIn_pure _ _
  rw [memberLookup_unexpected rfl he]
  decide

theorem reloadMember_refused (h : read (reloadMember m) d = .error e) : e.response.statusCode ≠ 409 := by
  refine read_error (E := {e | e.response.statusCode ≠ 409}) (fun b => ?_) h
  refine .bind (Tx.raisesAt_select fun e he => ?_) fun _ _ _ => .bind (Tx.raisesAt_orRaise fun _ => by decide)
    fun _ _ _ => .bind (Tx.raisesAt_orRaise fun _ => by decide) fun _ _ _ => Tx.raisesIn_pure _ _
  rw [memberLookup_unexpected rfl he]
  decide

theorem checkVacant_refused (h : read (checkVacant m) d = .error e) : e ∈ NoConflict d m := by
  refine read_error (fun b => ?_) h
  refine .bind (Tx.raisesAt_select fun e he h409 => ?_) fun already s hs => Tx.raisesAt_refuseIf fun htrue _ => ?_
  · rw [memberLookup_unexpected rfl he] at h409
    exact absurd h409 (by decide)
  · obtain ⟨hfound, rfl⟩ := ProjectRepository.succeeds_isMember.mp hs
    subst htrue
    obtain ⟨r, hr⟩ := ProjectRepository.isMember_eq_true.mp hfound
    obtain ⟨hmem, hproject, huser⟩ := ProjectRepository.memberRows_eq_singleton hr
    exact ⟨r, hmem, hproject, huser⟩

theorem insertProjectMember_refused {engine : Engine} (new : ∀ v ∈ d.projectMembers.rows, v.id ≠ m.id)
    (project : ∃ q ∈ d.projects.rows, q.id = m.projectId) (user : Known d.users m.userId)
    (h : Db.insertProjectMember engine m d = .error e) : e ∈ NoConflict d m := by
  intro _
  obtain ⟨q, hq, hproject⟩ := project
  obtain ⟨u, hu, huser⟩ := user
  rcases checked_error h with ⟨-, hnone⟩ | ⟨violated, hmem, hviolated, -⟩
  · obtain ⟨t, ht, -⟩ := Table.insert?_of_new (r := m) new
    rw [ht] at hnone
    exact absurd hnone (by simp)
  · simp only [List.mem_cons, List.not_mem_nil, or_false] at hmem
    rcases hmem with rfl | rfl | rfl
    · obtain ⟨r, hr, hpair⟩ := List.any_eq_true.mp hviolated
      rw [Bool.and_eq_true, beq_iff_eq, beq_iff_eq] at hpair
      exact ⟨r, hr, hpair.1, hpair.2⟩
    · exact absurd hviolated (by simp [dangling_of_mem hq hproject])
    · exact absurd hviolated (by simp [dangling_of_mem hu huser])

theorem insertNotification_refused {engine : Engine} {n : Notification} (new : ∀ v ∈ d.notifications.rows, v.id ≠ n.id)
    (user : Known d.users n.userId) (h : Db.insertNotification engine n d = .error e) : e.response.statusCode ≠ 409 := by
  obtain ⟨u, hu, huser⟩ := user
  rcases checked_error h with ⟨-, hnone⟩ | ⟨violated, hmem, hviolated, rfl⟩
  · obtain ⟨t, ht, -⟩ := Table.insert?_of_new (r := n) new
    rw [ht] at hnone
    exact absurd hnone (by simp)
  · simp only [List.mem_cons, List.not_mem_nil, or_false] at hmem
    rcases hmem with rfl | rfl
    · simp [Raised.response]
    · exact absurd hviolated (by simp [dangling_of_mem hu huser])

end OneRequest

end ProjectManagement
