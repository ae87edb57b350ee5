import ProjectManagement.MemberSessions

/-!
Additions and removals of members at the same time. Nobody is a member twice, in any state; and what is committed is told by
the requests that are accepted: their rows, less those that are removed, and their notices, in the order of the commits.
-/

namespace ProjectManagement

open Library Library.UniqueIndex

namespace MemberRequest

/-- The row an accepted addition inserts. -/
def row (c : Call) : MemberRequest → Option ProjectMember
  | add projectId p => some ⟨c.fresh.id, projectId, p.userId, p.role⟩
  | remove .. => none

/-- The notification that goes with it. -/
def notice (D : Deployment) (c : Call) (d : Db) : MemberRequest → Option Notification
  | add projectId p => (ProjectRepository.find projectId d).map fun project =>
      NotificationService.newNotification D c p.userId "Added to project" (addedMessage project.name) .projectMembership
  | remove .. => none

/-- The row an accepted removal has been after. -/
def removed (p : MemberPhase) : MemberRequest → Option ProjectMember
  | add .. => none
  | remove .. =>
    match p with
    | .done m _ => some m
    | _ => none

end MemberRequest

section OneRequest

structure Joins (D : Deployment) (c : Call) (d : Db) (a : MemberRequest) (j : Joining) : Prop where
  row : a.row c = some j.member
  notice : a.notice D c d = some j.notification
  id : j.member.id = c.fresh.id
  notification : j.notification.id = c.fresh.notificationId
  user : j.notification.userId = j.member.userId
  project : ∃ q ∈ d.projects.rows, q.id = j.member.projectId

variable {D : Deployment} {c : Call} {a : MemberRequest} {d d' : Db} {there there' : ProjectMember → Prop} {p : MemberPhase}
  {ws : List (Write Db MemberKey)}

theorem joins_joining {projectId : Uuid} {payload : MemberAdd} {project : Project} {actor : User}
    (found : ProjectRepository.find projectId d = some project) :
    Joins D c d (.add projectId payload) (joining D c project projectId payload actor) := by
  obtain ⟨hq, -, hid⟩ := ProjectRepository.find_eq_some.mp found
  refine ⟨rfl, ?_, rfl, rfl, rfl, project, hq, hid⟩
  rw [MemberRequest.notice, found]
  rfl

/-- A refusal as a conflict is due to a membership of the same user in the same project. -/
def Refusal (c : Call) (a : MemberRequest) (there : ProjectMember → Prop) : Set Raised :=
  {e | e.response.statusCode = 409 →
    ∃ m k, a.row c = some k ∧ there m ∧ m.projectId = k.projectId ∧ m.userId = k.userId}

def joinStatements (j : Joining) : List (Write Db MemberKey) :=
  [awaitMember j.member, insertMemberStatement j.member, noticeStatement j.notification]

/-- How far a request has come. Users and projects are those of `d`; the members it can have seen are `there`. -/
inductive Reached (D : Deployment) (c : Call) (a : MemberRequest) (d : Db) (there : ProjectMember → Prop) :
    MemberPhase → List (Write Db MemberKey) → Prop
  | start : Reached D c a d there .start []
  | entitled {actor : User} : Reached D c a d there (.entitled actor) []
  | located {j : Joining} (joins : Joins D c d a j) : Reached D c a d there (.located j) []
  | eligible {j : Joining} (joins : Joins D c d a j) (user : Known d.users j.member.userId) : Reached D c a d there (.eligible j) []
  | vacant {j : Joining} (joins : Joins D c d a j) (user : Known d.users j.member.userId) : Reached D c a d there (.vacant j) []
  | claimed {j : Joining} (joins : Joins D c d a j) (user : Known d.users j.member.userId) :
      Reached D c a d there (.claimed j) [awaitMember j.member]
  | inserted {j : Joining} (joins : Joins D c d a j) (user : Known d.users j.member.userId) :
      Reached D c a d there (.inserted j) [awaitMember j.member, insertMemberStatement j.member]
  | notified {j : Joining} (joins : Joins D c d a j) : Reached D c a d there (.notified j) (joinStatements j)
  | joined {j : Joining} {r : ApiResponse} (joins : Joins D c d a j) :
      Reached D c a d there (.answered j.member r) (joinStatements j)
  | targeted {m : ProjectMember} (removal : a.row c = none) (target : there m) : Reached D c a d there (.targeted m) []
  | removed {m : ProjectMember} {r : ApiResponse} (removal : a.row c = none) (target : there m) :
      Reached D c a d there (.answered m r) [deleteMemberStatement m]
  | failed {e : Raised} (refused : e ∈ Refusal c a there) : Reached D c a d there (.failed e) []

theorem Reached.mono (h : Reached D c a d there p ws) (hthere : ∀ m, there m → there' m) : Reached D c a d there' p ws := by
  cases h with
  | start => exact .start
  | entitled => exact .entitled
  | located joins => exact .located joins
  | eligible joins user => exact .eligible joins user
  | vacant joins user => exact .vacant joins user
  | claimed joins user => exact .claimed joins user
  | inserted joins user => exact .inserted joins user
  | notified joins => exact .notified joins
  | joined joins => exact .joined joins
  | targeted removal target => exact .targeted removal (hthere _ target)
  | removed removal target => exact .removed removal (hthere _ target)
  | failed refused =>
    refine .failed fun h409 => ?_
    obtain ⟨m, k, hrow, hm, hpair⟩ := refused h409
    exact ⟨m, k, hrow, hthere m hm, hpair⟩

/-- What the next statement of a request may be. -/
inductive Continues (D : Deployment) (c : Call) (a : MemberRequest) (d : Db) (there : ProjectMember → Prop) (p : MemberPhase)
    (ws : List (Write Db MemberKey)) : Action Db MemberKey MemberPhase → Prop
  | read {q : MemberPhase} (h : Reached D c a d there q ws) : Continues D c a d there p ws (.read q)
  | write {w : Write Db MemberKey} {q : MemberPhase} (h : Reached D c a d there q (ws ++ [w])) : Continues D c a d there p ws (.write w q)
  | rollback {e : Raised} (refused : e ∈ Refusal c a there) : Continues D c a d there p ws (.rollback (.failed e))
  | join {j : Joining} {r : ApiResponse} (joins : Joins D c d a j) (statements : ws = joinStatements j) :
      Continues D c a d there p ws (.commit (.done j.member r))
  | remove {m : ProjectMember} {r : ApiResponse} (removal : a.row c = none) (target : there m)
      (statements : ws = [deleteMemberStatement m]) : Continues D c a d there p ws (.commit (.done m r))
  | stop : Continues D c a d there p ws .stop

theorem refusal_of_ne {e : Raised} (h : e.response.statusCode ≠ 409) : e ∈ Refusal c a there := fun h409 => absurd h409 h

theorem refusal_of_member {e : Raised} {j : Joining} (joins : Joins D c d a j) (seen : ∀ m ∈ d'.projectMembers.rows, there m)
    (h : e ∈ NoConflict d' j.member) : e ∈ Refusal c a there := by
  intro h409
  obtain ⟨m, hm, hpair⟩ := h h409
  exact ⟨m, j.member, joins.row, seen m hm, hpair⟩

/-- `d'` is what is committed. -/
theorem Reached.next (h : Reached D c a d there p ws) (users : d'.users = d.users) (projects : d'.projects = d.projects)
    (seen : ∀ m ∈ d'.projectMembers.rows, there m) (new : ∀ m ∈ d'.projectMembers.rows, m.id ≠ c.fresh.id)
    (newNotice : ∀ n ∈ d'.notifications.rows, n.id ≠ c.fresh.notificationId) :
    Continues D c a d there p ws (MemberPhase.next D c a p (replayed ws d')) := by
  cases h with
  | start =>
    change Continues _ _ _ _ _ _ _ (MemberPhase.next D c a .start d')
    rw [MemberPhase.next]
    split
    · exact .read .entitled
    · next h => exact .rollback (refusal_of_ne (entitleAdmin_refused h))
  | entitled =>
    change Continues _ _ _ _ _ _ _ (MemberPhase.next D c a (.entitled _) d')
    cases a with
    | add projectId payload =>
      rw [MemberPhase.next]
      split
      · next project h =>
        have found : ProjectRepository.find projectId d = some project := by
          have hfound := locate_ok h
          rw [ProjectRepository.find, projects] at hfound
          exact hfound
        exact .read (.located (joins_joining found))
      · next h => exact .rollback (refusal_of_ne (locate_refused h))
    | remove projectId userId =>
      rw [MemberPhase.next]
      split
      · next m h => exact .read (.targeted rfl (seen m (targetMember_ok h)))
      · next h => exact .rollback (refusal_of_ne (targetMember_refused h))
  | @located j joins =>
    change Continues _ _ _ _ _ _ _ (MemberPhase.next D c a (.located j) d')
    rw [MemberPhase.next]
    split
    · next h =>
      have user := checkUser_ok h
      rw [users] at user
      exact .read (.eligible joins user)
    · next h => exact .rollback (refusal_of_ne (checkUser_refused h))
  | @eligible j joins user =>
    change Continues _ _ _ _ _ _ _ (MemberPhase.next D c a (.eligible j) d')
    rw [MemberPhase.next]
    split
    · exact .read (.vacant joins user)
    · next h => exact .rollback (refusal_of_member joins seen (checkVacant_refused h))
  | @vacant j joins user => exact .write (.claimed joins user)
  | @claimed j joins user =>
    change Continues _ _ _ _ _ _ _ (MemberPhase.next D c a (.claimed j) d')
    rw [MemberPhase.next]
    split
    · exact .write (.inserted joins user)
    · next h =>
      refine .rollback (refusal_of_member joins seen (insertProjectMember_refused ?_ ?_ ?_ h))
      · rw [joins.id]
        exact new
      · rw [projects]
        exact joins.project
      · rw [users]
        exact user
  | @inserted j joins user =>
    rw [MemberPhase.next]
    split
    · exact .write (.notified joins)
    · next h =>
      refine .rollback (refusal_of_ne (insertNotification_refused ?_ ?_ h))
      · rw [joins.notification]
        exact newNotice
      · rw [joins.user]
        change Known d'.users _
        rw [users]
        exact user
  | @notified j joins =>
    rw [MemberPhase.next]
    split
    · exact .read (.joined joins)
    · next h => exact .rollback (refusal_of_ne (reloadMember_refused h))
  | joined joins => exact .join joins rfl
  | targeted removal target => exact .write (.removed removal target)
  | removed removal target => exact .remove removal target rfl
  | failed refused => exact .stop

end OneRequest

section Schedules

variable {ι : Type} [DecidableEq ι] {D : Deployment} {calls : ι → Call} {requests : ι → MemberRequest} {d : Db}
  {s s' : MemberSessions ι} {i : ι} {m m' : ProjectMember} {order order' : List ι}

/-- A row that was there at first, or that an accepted addition has inserted. -/
def There (calls : ι → Call) (requests : ι → MemberRequest) (d : Db) (order : List ι) (m : ProjectMember) : Prop :=
  m ∈ d.projectMembers.rows ∨ ∃ i ∈ order, (requests i).row (calls i) = some m

def notices (D : Deployment) (calls : ι → Call) (requests : ι → MemberRequest) (d : Db) (order : List ι) : List Notification :=
  order.filterMap fun i => (requests i).notice D (calls i) d

/-- The calls have ids of their own. -/
structure OwnIds (calls : ι → Call) (d : Db) : Prop where
  members : ∀ i, ∀ m ∈ d.projectMembers.rows, m.id ≠ (calls i).fresh.id
  notifications : ∀ i, ∀ n ∈ d.notifications.rows, n.id ≠ (calls i).fresh.notificationId
  distinct : ∀ i j, (calls i).fresh.id = (calls j).fresh.id → i = j
  distinctNotices : ∀ i j, (calls i).fresh.notificationId = (calls j).fresh.notificationId → i = j

theorem row_id {a : MemberRequest} {c : Call} (h : a.row c = some m) : m.id = c.fresh.id := by
  cases a with
  | add projectId p =>
    obtain rfl := Option.some.inj h
    rfl
  | remove projectId userId => exact absurd h (by simp [MemberRequest.row])

theorem notice_id {a : MemberRequest} {c : Call} {n : Notification} (h : a.notice D c d = some n) : n.id = c.fresh.notificationId := by
  cases a with
  | add projectId p =>
    obtain ⟨project, -, rfl⟩ := Option.map_eq_some_iff.mp h
    rfl
  | remove projectId userId => exact absurd h (by simp [MemberRequest.notice])

omit [DecidableEq ι] in
theorem There.mono (h : There calls requests d order m) (hmem : ∀ i ∈ order, i ∈ order') : There calls requests d order' m :=
  h.imp_right fun ⟨i, hi, hrow⟩ => ⟨i, hmem i hi, hrow⟩

omit [DecidableEq ι] in
theorem OwnIds.id_ne (own : OwnIds calls d) (h : There calls requests d order m) (hi : i ∉ order) : m.id ≠ (calls i).fresh.id := by
  intro hid
  rcases h with hm | ⟨j, hj, hrow⟩
  · exact own.members i m hm hid
  · exact hi (own.distinct j i ((row_id hrow).symm.trans hid) ▸ hj)

omit [DecidableEq ι] in
theorem OwnIds.eq_of_id (own : OwnIds calls d) (h : There calls requests d order m) (h' : There calls requests d order m')
    (hid : m.id = m'.id) : m = m' := by
  rcases h with hm | ⟨j, -, hrow⟩ <;> rcases h' with hm' | ⟨k, -, hrow'⟩
  · exact d.projectMembers.eq_of_key hm hm' hid
  · exact absurd (hid.trans (row_id hrow')) (own.members k m hm)
  · exact absurd (hid.symm.trans (row_id hrow)) (own.members j m' hm')
  · obtain rfl := own.distinct j k ((row_id hrow).symm.trans (hid.trans (row_id hrow')))
    exact Option.some.inj (hrow.symm.trans hrow')

structure Recorded (D : Deployment) (calls : ι → Call) (requests : ι → MemberRequest) (d : Db) (s : MemberSessions ι) : Prop where
  index : memberPairs.Maintained s
  users : s.committed.users = d.users
  projects : s.committed.projects = d.projects
  reached : ∀ i, i ∉ s.commits →
    Reached D (calls i) (requests i) d (There calls requests d s.commits) (s.phase i) (s.pending i)
  accepted : ∀ i ∈ s.commits, ∃ m r, s.phase i = .done m r ∧ There calls requests d s.commits m ∧
    ∀ k, (requests i).row (calls i) = some k → k = m
  nodup : s.commits.Nodup
  members : ∀ m, m ∈ s.committed.projectMembers.rows ↔
    There calls requests d s.commits m ∧ ∀ i ∈ s.commits, (requests i).removed (s.phase i) ≠ some m
  notified : s.committed.notifications.rows = d.notifications.rows ++ notices D calls requests d s.commits

omit [DecidableEq ι] in
theorem recorded_start (h : UniqueMembers d) : Recorded D calls requests d (Sessions.start d .start : MemberSessions ι) where
  index := maintained_start (memberPairs_holds.mpr h)
  users := rfl
  projects := rfl
  reached _ _ := .start
  accepted := by simp [Sessions.start]
  nodup := List.nodup_nil
  members m := by simp [Sessions.start, There]
  notified := by simp [Sessions.start, notices]

/-- A statement that commits nothing. -/
theorem Recorded.own (h : Recorded D calls requests d s) (hi : i ∉ s.commits) (index : memberPairs.Maintained s')
    (committed : s'.committed = s.committed) (commits : s'.commits = s.commits) (phase : ∀ j, j ≠ i → s'.phase j = s.phase j)
    (pending : ∀ j, j ≠ i → s'.pending j = s.pending j)
    (reached : Reached D (calls i) (requests i) d (There calls requests d s.commits) (s'.phase i) (s'.pending i)) :
    Recorded D calls requests d s' := by
  have hphase : ∀ j ∈ s.commits, s'.phase j = s.phase j := fun j hj => phase j (ne_of_mem_of_not_mem hj hi)
  refine ⟨index, by rw [committed, h.users], by rw [committed, h.projects], ?_, ?_, ?_, ?_, ?_⟩ <;> rw [commits]
  · intro j hj
    by_cases hji : j = i
    · rw [hji]
      exact reached
    · rw [phase j hji, pending j hji]
      exact h.reached j hj
  · intro j hj
    rw [hphase j hj]
    exact h.accepted j hj
  · exact h.nodup
  · intro m
    rw [committed, h.members]
    apply and_congr_right
    intro _
    exact forall₂_congr fun j hj => by rw [hphase j hj]
  · rw [committed, h.notified]

omit [DecidableEq ι] in
theorem Recorded.committed_ids (own : OwnIds calls d) (h : Recorded D calls requests d s) (hi : i ∉ s.commits) :
    (∀ m ∈ s.committed.projectMembers.rows, m.id ≠ (calls i).fresh.id) ∧
      ∀ n ∈ s.committed.notifications.rows, n.id ≠ (calls i).fresh.notificationId := by
  constructor
  · exact fun m hm => own.id_ne ((h.members m).mp hm).1 hi
  · intro n hn hid
    rw [h.notified, List.mem_append] at hn
    rcases hn with hn | hn
    · exact own.notifications i n hn hid
    · obtain ⟨j, hj, hnotice⟩ := List.mem_filterMap.mp hn
      exact hi (own.distinctNotices j i ((notice_id hnotice).symm.trans hid) ▸ hj)

/-- A commit, given what it adds to the tables. -/
theorem Recorded.commit (h : Recorded D calls requests d s) (hi : i ∉ s.commits) {r : ApiResponse}
    (index : memberPairs.Maintained (s.perform i (.commit (.done m r)))) (users : (s.view i).users = s.committed.users)
    (projects : (s.view i).projects = s.committed.projects) (there : There calls requests d (s.commits ++ [i]) m)
    (own : ∀ k, (requests i).row (calls i) = some k → k = m)
    (members : ∀ x, x ∈ (s.view i).projectMembers.rows ↔ There calls requests d (s.commits ++ [i]) x ∧
      (∀ j ∈ s.commits, (requests j).removed (s.phase j) ≠ some x) ∧ (requests i).removed (.done m r) ≠ some x)
    (notified : (s.view i).notifications.rows =
      s.committed.notifications.rows ++ ((requests i).notice D (calls i) d).toList) :
    Recorded D calls requests d (s.perform i (.commit (.done m r))) := by
  have hphase : (s.perform i (.commit (.done m r))).phase i = .done m r := Sessions.phase_close
  have hother : ∀ j ∈ s.commits, (s.perform i (.commit (.done m r))).phase j = s.phase j := fun j hj =>
    Sessions.phase_perform_ne (ne_of_mem_of_not_mem hj hi)
  have hcommits : (s.perform i (.commit (.done m r))).commits = s.commits ++ [i] := rfl
  have hcommitted : (s.perform i (.commit (.done m r))).committed = s.view i := rfl
  have hold : ∀ x, There calls requests d s.commits x → There calls requests d (s.commits ++ [i]) x := fun x hx =>
    hx.mono fun j hj => List.mem_append_left _ hj
  refine ⟨index, by rw [hcommitted, users, h.users], by rw [hcommitted, projects, h.projects], ?_, ?_, ?_, ?_, ?_⟩ <;> rw [hcommits]
  · intro j hj
    rw [List.mem_append, List.mem_singleton, not_or] at hj
    rw [Sessions.phase_perform_ne hj.2, Sessions.pending_perform_ne hj.2]
    exact (h.reached j hj.1).mono hold
  · intro j hj
    rw [List.mem_append, List.mem_singleton] at hj
    rcases hj with hj | rfl
    · obtain ⟨m', r', hdone, hthere, hrow⟩ := h.accepted j hj
      exact ⟨m', r', (hother j hj).trans hdone, hold _ hthere, hrow⟩
    · exact ⟨m, r, hphase, there, own⟩
  · rw [List.nodup_append]
    exact ⟨h.nodup, List.nodup_singleton i, fun j hj k hk => by rw [List.mem_singleton.mp hk]; exact ne_of_mem_of_not_mem hj hi⟩
  · intro x
    rw [hcommitted, members]
    apply and_congr_right
    intro _
    constructor
    · rintro ⟨hkept, hlast⟩ j hj
      rw [List.mem_append, List.mem_singleton] at hj
      rcases hj with hj | rfl
      · rw [hother j hj]
        exact hkept j hj
      · rw [hphase]
        exact hlast
    · intro hkept
      refine ⟨fun j hj => ?_, ?_⟩
      · rw [← hother j hj]
        exact hkept j (List.mem_append_left _ hj)
      · rw [← hphase]
        exact hkept i (List.mem_append_right _ (List.mem_singleton_self i))
  · rw [hcommitted, notified, h.notified, notices, notices, List.filterMap_append, List.append_assoc]
    congr 2

theorem Recorded.join (own : OwnIds calls d) (h : Recorded D calls requests d s) (hi : i ∉ s.commits) {j : Joining} {r : ApiResponse}
    (index : memberPairs.Maintained (s.perform i (.commit (.done j.member r)))) (joins : Joins D (calls i) d (requests i) j)
    (statements : s.pending i = joinStatements j) : Recorded D calls requests d (s.perform i (.commit (.done j.member r))) := by
  obtain ⟨newMember, newNotice⟩ := h.committed_ids own hi
  rw [← joins.id] at newMember
  rw [← joins.notification] at newNotice
  have hview : s.view i = { s.committed with
      projectMembers := s.committed.projectMembers.inserted j.member
      notifications := s.committed.notifications.inserted j.notification } := by
    rw [Sessions.view, statements]
    rfl
  have hadds : ∀ p, (requests i).removed p = none := by
    intro p
    cases hrequest : requests i with
    | add projectId payload => rfl
    | remove projectId userId => exact absurd joins.row (by simp [hrequest, MemberRequest.row])
  have hthere : There calls requests d (s.commits ++ [i]) j.member :=
    Or.inr ⟨i, List.mem_append_right _ (List.mem_singleton_self i), joins.row⟩
  -- the row is nobody's target before it is there
  have huntouched : ∀ k ∈ s.commits, (requests k).removed (s.phase k) ≠ some j.member := by
    intro k hk htarget
    obtain ⟨m, r', hdone, hm, -⟩ := h.accepted k hk
    have htargeted : m = j.member := by
      cases hrequest : requests k with
      | add projectId payload => exact absurd htarget (by simp [hrequest, MemberRequest.removed])
      | remove projectId userId => simpa [hrequest, hdone, MemberRequest.removed] using htarget
    subst htargeted
    exact own.id_ne hm hi joins.id
  apply h.commit hi index
  · rw [hview]
  · rw [hview]
  · exact hthere
  · exact fun k hk => Option.some.inj (hk.symm.trans joins.row)
  · intro x
    rw [hview, hadds]
    change x ∈ (s.committed.projectMembers.inserted j.member).rows ↔ _
    rw [Table.inserted_rows newMember, List.mem_append, List.mem_singleton, h.members]
    constructor
    · rintro (⟨hx, hkept⟩ | rfl)
      · exact ⟨hx.mono fun k hk => List.mem_append_left _ hk, hkept, by simp⟩
      · exact ⟨hthere, huntouched, by simp⟩
    · rintro ⟨hx | ⟨k, hk, hrow⟩, hkept, -⟩
      · exact Or.inl ⟨Or.inl hx, hkept⟩
      · rw [List.mem_append, List.mem_singleton] at hk
        rcases hk with hk | rfl
        · exact Or.inl ⟨Or.inr ⟨k, hk, hrow⟩, hkept⟩
        · exact Or.inr (Option.some.inj (hrow.symm.trans joins.row))
  · rw [hview, joins.notice]
    exact Table.inserted_rows newNotice

theorem Recorded.remove (own : OwnIds calls d) (h : Recorded D calls requests d s) (hi : i ∉ s.commits) {r : ApiResponse}
    (index : memberPairs.Maintained (s.perform i (.commit (.done m r)))) (removal : (requests i).row (calls i) = none)
    (target : There calls requests d s.commits m) (statements : s.pending i = [deleteMemberStatement m]) :
    Recorded D calls requests d (s.perform i (.commit (.done m r))) := by
  have hview : s.view i = { s.committed with
      projectMembers := s.committed.projectMembers.deleteWhere fun r => r.id == m.id } := by
    rw [Sessions.view, statements]
    rfl
  obtain ⟨hremoved, hnotice⟩ : (requests i).removed (.done m r) = some m ∧ (requests i).notice D (calls i) d = none := by
    cases hrequest : requests i with
    | add projectId payload => exact absurd removal (by simp [hrequest, MemberRequest.row])
    | remove projectId userId => exact ⟨rfl, rfl⟩
  have hsame : ∀ x, There calls requests d (s.commits ++ [i]) x ↔ There calls requests d s.commits x := by
    intro x
    constructor
    · rintro (hx | ⟨k, hk, hrow⟩)
      · exact Or.inl hx
      · rw [List.mem_append, List.mem_singleton] at hk
        rcases hk with hk | rfl
        · exact Or.inr ⟨k, hk, hrow⟩
        · exact absurd (removal.symm.trans hrow) (by simp)
    · exact fun hx => hx.mono fun k hk => List.mem_append_left _ hk
  apply h.commit hi index
  · rw [hview]
  · rw [hview]
  · exact (hsame m).mpr target
  · exact fun k hk => absurd (removal.symm.trans hk) (by simp)
  · intro x
    rw [hview, hremoved, hsame]
    change x ∈ (s.committed.projectMembers.deleteWhere fun r => r.id == m.id).rows ↔ _
    rw [Table.mem_deleteWhere, h.members, and_assoc]
    apply and_congr_right
    intro hx
    apply and_congr_right
    intro _
    have hid : x.id = m.id ↔ m = x := ⟨fun hid => (own.eq_of_id hx target hid).symm, fun heq => by rw [heq]⟩
    simp [hid]
  · rw [hview, hnotice]
    exact (List.append_nil _).symm

theorem Recorded.step (own : OwnIds calls d) (h : Recorded D calls requests d s) (i : ι) :
    Recorded D calls requests d (s.step (memberStatements D calls requests) i) := by
  have index : memberPairs.Maintained (s.step (memberStatements D calls requests) i) := h.index.step fun _ _ _ => MemberPhase.guarded
  by_cases hi : i ∈ s.commits
  · obtain ⟨m, r, hdone, -⟩ := h.accepted i hi
    have hstay : s.step (memberStatements D calls requests) i = s := by
      rw [Sessions.step, hdone]
      rfl
    rw [hstay]
    exact h
  · obtain ⟨newMember, newNotice⟩ := h.committed_ids own hi
    have continues := (h.reached i hi).next h.users h.projects (fun m hm => ((h.members m).mp hm).1) newMember newNotice
    unfold Sessions.step at index ⊢
    change Continues _ _ _ _ _ _ _ (memberStatements D calls requests i (s.phase i) (s.view i)) at continues
    generalize memberStatements D calls requests i (s.phase i) (s.view i) = action at continues index ⊢
    cases continues with
    | read hreached =>
      refine h.own hi index rfl rfl (fun j hj => Sessions.phase_perform_ne hj) (fun j hj => Sessions.pending_perform_ne hj) ?_
      simp only [Sessions.perform, Sessions.phase_goTo]
      exact hreached
    | @write w q hreached =>
      cases hb : s.blocked i w.keys with
      | true =>
        rw [Sessions.perform_blocked hb]
        exact h
      | false =>
        refine h.own hi index (Sessions.committed_perform (by simp)) (Sessions.commits_perform (by simp))
          (fun j hj => Sessions.phase_perform_ne hj) (fun j hj => Sessions.pending_perform_ne hj) ?_
        rw [Sessions.phase_perform_write hb, Sessions.pending_perform_write hb]
        exact hreached
    | rollback refused =>
      refine h.own hi index rfl rfl (fun j hj => Sessions.phase_perform_ne hj) (fun j hj => Sessions.pending_perform_ne hj) ?_
      simp only [Sessions.perform, Sessions.phase_close, Sessions.pending_close]
      exact .failed refused
    | join joins statements => exact h.join own hi index joins statements
    | remove removal target statements => exact h.remove own hi index removal target statements
    | stop => exact h

/-- Whatever additions and removals run at the same time, and whoever's statement comes next: nobody is a member of a project
twice, neither in what is committed nor in what any transaction sees. The accepted additions have inserted their rows, and the
accepted removals have taken theirs away; there is one notification for each accepted addition, in the order of the commits, and no
other. A request is refused as a conflict only where the user is, or has been, a member of the project. -/
theorem members_and_notices_in_every_schedule (unique : UniqueMembers d) (own : OwnIds calls d) (schedule : List ι) :
    let s := runMembers D calls requests d schedule
    UniqueMembers s.committed ∧ (∀ i, UniqueMembers (s.view i)) ∧
      (∀ m, m ∈ s.committed.projectMembers.rows ↔ There calls requests d s.commits m ∧
        ∀ i ∈ s.commits, (requests i).removed (s.phase i) ≠ some m) ∧
      s.committed.notifications.rows = d.notifications.rows ++ notices D calls requests d s.commits ∧
      s.commits.Nodup ∧ (∀ i, i ∈ s.commits ↔ ∃ m r, s.phase i = .done m r) ∧
      ∀ i e, s.phase i = .failed e → e ∈ Refusal (calls i) (requests i) (There calls requests d s.commits) := by
  intro s
  have h : Recorded D calls requests d s :=
    Sessions.play_invariant (fun _ i hs => hs.step own i) (recorded_start unique) schedule
  refine ⟨memberPairs_holds.mp h.index.committed, fun i => memberPairs_holds.mp (h.index.view i), h.members, h.notified, h.nodup,
    fun i => ⟨fun hi => ?_, ?_⟩, ?_⟩
  · obtain ⟨m, r, hdone, -⟩ := h.accepted i hi
    exact ⟨m, r, hdone⟩
  · rintro ⟨m, r, hdone⟩
    by_contra hi
    have hreached := h.reached i hi
    rw [hdone] at hreached
    generalize s.pending i = ws at hreached
    cases hreached
  · intro i e he
    have hi : i ∉ s.commits := fun hi => by
      obtain ⟨m, r, hdone, -⟩ := h.accepted i hi
      exact absurd (hdone.symm.trans he) (by simp)
    have hreached := h.reached i hi
    rw [he] at hreached
    generalize s.pending i = ws at hreached
    cases hreached with
    | failed refused => exact refused

end Schedules

/-- Two administrators' requests add one user to one project. -/
def rivalAdditions (_ : Bool) : MemberRequest := .add 32 { userId := 64 }

def additionCalls (late : Bool) : Call := Call.sample (if late then 6 else 5) (some 16)

def twoAccounts : Db :=
  (playFrom .postgresql World.initial (oneTask ++ sampleRequests 4 [(none, .register ⟨"a@b.c", "Passw0rd", "A"⟩)])).1

/-- Both have found the user no member; the second waits for the first, and is refused. -/
theorem members_and_notices_in_every_schedule_sample :
    (runMembers .postgresql additionCalls rivalAdditions twoAccounts
      [false, true, false, true, false, true, false, true, false, true, false, false, false, false, true, true]).committed.notifications.rows =
      twoAccounts.notifications.rows ++ notices .postgresql additionCalls rivalAdditions twoAccounts [false] := by
  have unique : UniqueMembers twoAccounts := by
    unfold UniqueMembers
    decide +kernel
  have own : OwnIds additionCalls twoAccounts := by
    constructor <;> decide +kernel
  have hcommits : (runMembers .postgresql additionCalls rivalAdditions twoAccounts
      [false, true, false, true, false, true, false, true, false, true, false, false, false, false, true, true]).commits = [false] := by
    decide +kernel
  have h := (@members_and_notices_in_every_schedule Bool _ .postgresql additionCalls rivalAdditions twoAccounts unique own
    [false, true, false, true, false, true, false, true, false, true, false, false, false, false, true, true]).2.2.2.1
  rw [hcommits] at h
  exact h

end ProjectManagement
