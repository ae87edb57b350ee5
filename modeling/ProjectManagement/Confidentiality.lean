import ProjectManagement.Blindness
import ProjectManagement.System

/-!
Content confidentiality: two states that differ only in the projects an employee is no member of
answer every sequence of that employee's requests alike.
-/

namespace ProjectManagement

open Library Library.Tx

section Routes

variable {S : Secret} {u : Uuid} {D : Deployment} {c : Call} {actor : User} {id projectId : Uuid}

theorem asCaller_seen {α : Type} {k : User → App α} (hc : ActsAs u c)
    (hk : ∀ actor, IsEmployee u actor → Unseeing S u (k actor)) : Unseeing S u (getCurrentUser c >>= k) :=
  ⟨(getCurrentUser_seen hc).bind fun actor hactor => (hk actor hactor).agree⟩

theorem inProject_seen {α : Type} {k : Project → App α} (hactor : IsEmployee u actor)
    (hk : ¬S.project projectId → ∀ p, Unseeing S u (k p)) : Unseeing S u (requireProjectView projectId actor >>= k) :=
  ⟨(requireProjectView_seen hactor).bind fun p hopen => (hk hopen p).agree⟩

theorem onTask_seen {α : Type} {k : User × LoadedTask → App α} (hc : ActsAs u c)
    (hk : ∀ r, ¬S.project r.2.row.projectId → ¬S.task r.2.row.id → Unseeing S u (k r)) :
    Unseeing S u (Routes.accessibleTask c id >>= k) :=
  ⟨(accessibleTask_seen hc).bind fun r hr => (hk r hr.2.1 hr.2.2).agree⟩

theorem Unseeing.bind_bind {α β γ : Type} {m : App α} {f : App β} {k : β → App γ}
    (h : Unseeing S u (do let _ ← m; f)) (hk : ∀ b, Unseeing S u (k b)) :
    Unseeing S u (do let _ ← m; let b ← f; k b) := by
  have hassoc : (do let _ ← m; let b ← f; k b) = (do let b ← (do let _ ← m; f); k b) := by rw [bind_assoc]
  rw [hassoc]
  infer_instance

theorem createTask_route_seen {p : TaskCreate} (hc : ActsAs u c) : Unseeing S u (Routes.createTask D c p) := by
  refine asCaller_seen hc fun actor hactor => ⟨SeenAlike.of_unseeing.bind fun _ _ => ?_⟩
  refine (mayAccess_seen hactor).bind fun allowed hallowed => SeenAlike.refuseIf.bind fun _ hok => ?_
  have hopen : ¬S.project p.projectId := hallowed (by simpa using hok)
  have hcreate := createTask_seen (D := D) (c := c) (u := u) (p := p) actor hopen
  exact Blind.agree

theorem downloadFile_seen (hc : ActsAs u c) : Unseeing S u (Routes.downloadFile D c id) := by
  refine asCaller_seen hc fun actor hactor => ⟨getAttachment_seen.bind fun f g hfg => ?_⟩
  obtain ⟨htask, hopen⟩ := hfg
  rw [← htask]
  refine (getTaskOf_seen hactor).bind fun _ hvisible => ?_
  obtain ⟨rfl, hkey⟩ := hopen hvisible
  have hbytes := resolveDownloadPath_seen (D := D) (u := u) hkey
  exact Blind.agree

theorem handle_seen (hc : ActsAs u c) (names : EvenNames S c) (request : Request) :
    Unseeing S u (handle D c request) := by
  cases request with
  | register p => unfold handle Routes.register Routes.registerWith; infer_instance
  | login username password => unfold handle Routes.login; infer_instance
  | refresh token => unfold handle Routes.refresh; infer_instance
  | logout token => unfold handle Routes.logout; infer_instance
  | me => exact asCaller_seen hc fun _ _ => inferInstance
  | changePassword p =>
    refine asCaller_seen hc fun actor hactor => ?_
    have hchange := changePassword_seen (S := S) (D := D) (c := c) (p := p) hactor
    infer_instance
  | listUsers params => exact adminOnly_seen hc
  | createUser p => exact adminOnly_seen hc
  | getUser id => exact asCaller_seen hc fun _ _ => inferInstance
  | updateUser id p =>
    refine asCaller_seen hc fun actor hactor => ?_
    have hupdate := updateUser_seen (S := S) (D := D) (c := c) (p := p) id hactor
    infer_instance
  | updateRole id p => exact adminOnly_seen hc
  | deleteUser id => exact adminOnly_seen hc
  | listProjects params =>
    refine asCaller_seen hc fun actor hactor => ?_
    have hlist := listProjects_seen (S := S) (D := D) params hactor
    infer_instance
  | createProject p => exact adminOnly_seen hc
  | getProject id =>
    refine asCaller_seen hc fun actor hactor => inProject_seen hactor fun hopen _ => ?_
    have hdetail := getProjectDetail_seen (S := S) (u := u) hopen
    unfold Routes.projectDetail
    infer_instance
  | updateProject id p => exact adminOnly_seen hc
  | deleteProject id => exact adminOnly_seen hc
  | addMember id p => exact adminOnly_seen hc
  | removeMember id user => exact adminOnly_seen hc
  | listProjectTasks id params =>
    refine asCaller_seen hc fun actor hactor => inProject_seen hactor fun hopen _ => ?_
    have hlist := listForProject_seen (S := S) (u := u) (D := D) params hopen
    infer_instance
  | kanbanBoard id =>
    refine asCaller_seen hc fun actor hactor => inProject_seen hactor fun hopen _ => ?_
    have hboard := kanbanBoard_seen (S := S) (u := u) (D := D) hopen
    infer_instance
  | createTask p => exact createTask_route_seen hc
  | getTask id => exact onTask_seen hc fun _ _ _ => inferInstance
  | updateTask id p =>
    refine onTask_seen hc fun r hopen htask => ?_
    have hupdate := updateTask_seen (S := S) (u := u) (D := D) (c := c) (p := p) r.1 hopen htask
    infer_instance
  | updateTaskStatus id p =>
    refine onTask_seen hc fun r hopen htask => ?_
    have hupdate := updateStatus_seen (S := S) (u := u) (D := D) (c := c) (p := p) hopen htask
    infer_instance
  | deleteTask id =>
    refine onTask_seen hc fun r hopen htask => ?_
    have hdelete := deleteTask_seen (S := S) (u := u) (D := D) (c := c) htask
    infer_instance
  | listComments id params =>
    refine onTask_seen hc fun r hopen htask => ?_
    have hlist := listComments_seen (S := S) (u := u) (D := D) params htask
    infer_instance
  | createComment id p =>
    refine onTask_seen hc fun r hopen htask => ?_
    have hcreate := createComment_seen (S := S) (u := u) (D := D) (c := c) (p := p) r.1 htask
    infer_instance
  | updateComment id p =>
    refine asCaller_seen hc fun actor hactor => ?_
    have hupdate := (updateComment_seen (S := S) (D := D) (c := c) (p := p) id hactor).bind_bind
      (k := fun updated => do
        let comment ← Tx.orRaise (CommentOut.modelValidate updated) .unexpected
        pure ({ message := some "Comment updated", data := .comment comment } : ApiResponse)) fun _ => inferInstance
    infer_instance
  | deleteComment id =>
    refine asCaller_seen hc fun actor hactor => ?_
    have hdelete := (deleteComment_seen (S := S) (D := D) (c := c) id hactor).bind_bind
      (k := fun _ => pure noContent) fun _ => inferInstance
    infer_instance
  | listFiles id =>
    refine onTask_seen hc fun r hopen htask => ?_
    have hlist := listFiles_seen (S := S) (u := u) (D := D) htask
    infer_instance
  | uploadFile id file =>
    refine onTask_seen hc fun r hopen htask => ?_
    have hupload := upload_seen (S := S) (u := u) (D := D) file r.1 names htask
    infer_instance
  | downloadFile id => exact downloadFile_seen hc
  | listNotifications params => exact asCaller_seen hc fun _ _ => inferInstance
  | markRead id => exact asCaller_seen hc fun _ _ => inferInstance
  | markAllRead => exact asCaller_seen hc fun _ _ => inferInstance
  | dashboard => exact adminOnly_seen hc
  | projectAnalytics id =>
    refine asCaller_seen hc fun actor hactor => inProject_seen hactor fun hopen _ => ?_
    have hreport := projectAnalytics_seen (S := S) (u := u) (c := c) hopen
    infer_instance

end Routes

def Hidden (u : Uuid) (d : Db) (projectId : Uuid) : Prop :=
  ∀ m ∈ d.projectMembers.rows, m.userId = u → m.projectId ≠ projectId

def HiddenTask (u : Uuid) (d : Db) (taskId : Uuid) : Prop :=
  ∃ t ∈ d.tasks.rows, t.id = taskId ∧ Hidden u d t.projectId

def HiddenKey (u : Uuid) (d : Db) (key : String) : Prop :=
  ∃ f ∈ d.fileAttachments.rows, HiddenTask u d f.taskId ∧ f.storedFilename = key

/-- Two states that agree but for the projects `u` is no member of. Of their rows only the ids, the parents and the
deletion marks are the same; of their attachments not even the bytes. -/
structure SameButHidden (u : Uuid) (w w' : World) : Prop where
  users : w.1.users = w'.1.users
  members : w.1.projectMembers = w'.1.projectMembers
  notifications : w.1.notifications = w'.1.notifications
  refreshTokens : w.1.refreshTokens = w'.1.refreshTokens
  projects : List.Forall₂ (fun p q => p = q ∨ Hidden u w.1 p.id ∧ p.id = q.id ∧ p.deletedAt = q.deletedAt)
    w.1.projects.rows w'.1.projects.rows
  tasks : List.Forall₂ (fun t s => t = s ∨
    Hidden u w.1 t.projectId ∧ t.id = s.id ∧ t.projectId = s.projectId ∧ t.deletedAt = s.deletedAt)
    w.1.tasks.rows w'.1.tasks.rows
  comments : List.Forall₂ (fun m n => m = n ∨
    HiddenTask u w.1 m.taskId ∧ m.id = n.id ∧ m.taskId = n.taskId ∧ m.deletedAt = n.deletedAt)
    w.1.comments.rows w'.1.comments.rows
  files : List.Forall₂ (fun f g => f = g ∨ HiddenTask u w.1 f.taskId ∧ f.id = g.id ∧ f.taskId = g.taskId)
    w.1.fileAttachments.rows w'.1.fileAttachments.rows
  blobs : ∀ key, ¬HiddenKey u w.1 key → ¬HiddenKey u w'.1 key → w.2 key = w'.2 key
  present : ∀ key, HiddenKey u w.1 key → HiddenKey u w'.1 key → (w.2 key).isSome = (w'.2 key).isSome

def UniqueNames (d : Db) : Prop :=
  ∀ f ∈ d.fileAttachments.rows, ∀ g ∈ d.fileAttachments.rows, f.storedFilename = g.storedFilename → f = g

/-- The names the uploads of a run draw: none is that of a hidden attachment in one state only. Names that are new in
both states are such. -/
def EvenRun (u : Uuid) (is : List Input) (w w' : World) : Prop :=
  ∀ i ∈ is, ∀ name, HiddenKey u w.1 (keyFor i.call.fresh.uuid4 name) ↔ HiddenKey u w'.1 (keyFor i.call.fresh.uuid4 name)

def responses (D : Deployment) : List Input → World → List Outcome
  | [], _ => []
  | i :: is, w => outcome D i w :: responses D is (next D i w)

def secretOf (u : Uuid) (w w' : World) : Secret where
  project := Hidden u w.1
  task := HiddenTask u w.1
  key key := HiddenKey u w.1 key ∨ HiddenKey u w'.1 key
  shared key := HiddenKey u w.1 key ∧ HiddenKey u w'.1 key

section Runs

variable {S : Secret} {u : Uuid} {D : Deployment} {w w' : World} {is : List Input}

theorem hiddenTask_iff_map {d : Db} {taskId : Uuid} : HiddenTask u d taskId ↔
    ∃ p ∈ d.tasks.rows.map (fun t => (t.id, t.projectId)), p.1 = taskId ∧ Hidden u d p.2 := by
  simp [HiddenTask]

theorem SameButHidden.hiddenTask_iff (same : SameButHidden u w w') {taskId : Uuid} :
    HiddenTask u w.1 taskId ↔ HiddenTask u w'.1 taskId := by
  have hids : w.1.tasks.rows.map (fun t => (t.id, t.projectId)) = w'.1.tasks.rows.map (fun t => (t.id, t.projectId)) :=
    Alike.map same.tasks fun t s hidden => Prod.ext hidden.2.1 hidden.2.2.1
  rw [hiddenTask_iff_map, hiddenTask_iff_map, hids]
  simp only [Hidden, same.members]

theorem SameButHidden.openKey (same : SameButHidden u w w') (unique : UniqueNames w.1) (unique' : UniqueNames w'.1)
    {f : FileAttachment} (hf : f ∈ w.1.fileAttachments.rows) (hopen : ¬HiddenTask u w.1 f.taskId) :
    ¬(secretOf u w w').key f.storedFilename := by
  rintro (⟨g, hg, hidden, hname⟩ | ⟨g, hg, hidden, hname⟩)
  · rw [unique g hg f hf hname] at hidden
    exact hopen hidden
  · obtain ⟨i, hi, rfl⟩ := List.mem_iff_getElem.mp hf
    obtain ⟨hlen, hget⟩ := List.forall₂_iff_get.mp same.files
    have hi' : i < w'.1.fileAttachments.rows.length := hlen ▸ hi
    rcases hget i hi hi' with he | ⟨hsecret, -⟩
    · simp only [List.get_eq_getElem] at he
      rw [he] at hname hopen
      rw [unique' g hg _ (List.getElem_mem hi') hname] at hidden
      exact hopen (same.hiddenTask_iff.mpr hidden)
    · exact hopen hsecret

theorem SameButHidden.alike (same : SameButHidden u w w') (employee : ∀ v ∈ w.1.users.rows, v.id = u → v.role = .employee)
    (unique : UniqueNames w.1) (unique' : UniqueNames w'.1) : DbAlike (secretOf u w w') u w.1 w'.1 where
  users := same.users
  members := same.members
  notifications := same.notifications
  refreshTokens := same.refreshTokens
  projects := same.projects.imp fun p q h => h.imp id fun ⟨hidden, hid, hdel⟩ => ⟨hidden, hid, hdel⟩
  tasks := by
    refine List.forall₂_iff_get.mpr ?_
    obtain ⟨hlen, hget⟩ := List.forall₂_iff_get.mp same.tasks
    refine ⟨hlen, fun i hi hi' => (hget i hi hi').imp id ?_⟩
    rintro ⟨hidden, hid, hproject, hdel⟩
    exact ⟨⟨_, List.get_mem _ ⟨i, hi⟩, rfl, hidden⟩, hid, hproject, hdel⟩
  comments := same.comments.imp fun m n h => h.imp id fun ⟨hidden, hid, htask, hdel⟩ => ⟨hidden, hid, htask, hdel⟩
  files := by
    refine List.forall₂_iff_get.mpr ?_
    obtain ⟨hlen, hget⟩ := List.forall₂_iff_get.mp same.files
    refine ⟨hlen, fun i hi hi' => (hget i hi hi').imp id ?_⟩
    rintro ⟨hidden, hid, htask⟩
    exact ⟨hidden, hid, htask, Or.inl ⟨_, List.get_mem _ ⟨i, hi⟩, hidden, rfl⟩,
      Or.inr ⟨_, List.get_mem _ ⟨i, hi'⟩, same.hiddenTask_iff.mp (htask ▸ hidden), rfl⟩⟩
  employee := employee
  member := fun m hm huser hidden => hidden m hm huser rfl
  secretTask := by
    rintro t ht ⟨s, hs, hid, hidden⟩
    rw [w.1.tasks.eq_of_key ht hs hid.symm]
    exact hidden
  secretTask_mem := fun id ⟨t, ht, hid, _⟩ => ⟨t, ht, hid⟩
  openKey := fun f hf hopen => same.openKey unique unique' hf hopen
  sharedKey := fun _ ⟨⟨f, hf, _, hname⟩, g, hg, _, hname'⟩ => ⟨⟨f, hf, hname⟩, g, hg, hname'⟩

theorem step_seen {i : Input} (caller : ActsAs u i.call) (names : EvenNames S i.call) (hd : DbAlike S u w.1 w'.1)
    (hb : BlobsAlike S w.2 w'.2) : outcome D i w = outcome D i w' ∧ DbAlike S u (next D i w).1 (next D i w').1 ∧
      BlobsAlike S (next D i w).2 (next D i w').2 := by
  obtain ⟨hres, hdb, hblobs⟩ := (handle_seen (D := D) caller names i.request).agree.run hd hb
  exact ⟨hres.eq, hdb, hblobs⟩

theorem responses_seen (caller : ∀ i ∈ is, ActsAs u i.call) (names : ∀ i ∈ is, EvenNames S i.call)
    (hd : DbAlike S u w.1 w'.1) (hb : BlobsAlike S w.2 w'.2) : responses D is w = responses D is w' := by
  induction is generalizing w w' with
  | nil => rfl
  | cons i is ih =>
    obtain ⟨hout, hd', hb'⟩ :=
      step_seen (D := D) (caller i List.mem_cons_self) (names i List.mem_cons_self) hd hb
    have hrest := ih (fun j hj => caller j (List.mem_cons_of_mem i hj)) (fun j hj => names j (List.mem_cons_of_mem i hj))
      hd' hb'
    rw [responses, responses, hout, hrest]

/-- No sequence of requests of the employee `u` and of callers without a session tells two states apart that agree but
for the projects `u` is no member of. -/
theorem hidden_projects_confidential (D : Deployment) (same : SameButHidden u w w')
    (employee : ∀ v ∈ w.1.users.rows, v.id = u → v.role = .employee)
    (unique : UniqueNames w.1) (unique' : UniqueNames w'.1) (caller : ∀ i ∈ is, ActsAs u i.call)
    (names : EvenRun u is w w') : responses D is w = responses D is w' := by
  refine responses_seen (S := secretOf u w w') caller (fun i hi name => ?_) (same.alike employee unique unique') ⟨?_, ?_⟩
  · rintro (h | h)
    · exact ⟨h, (names i hi name).mp h⟩
    · exact ⟨(names i hi name).mpr h, h⟩
  · exact fun key hkey => same.blobs key (fun h => hkey (Or.inl h)) (fun h => hkey (Or.inr h))
  · exact fun key ⟨h, h'⟩ => same.present key h h'

end Runs

/-- An employee, and a project of others with one task, one comment and one file, all about `secret`. -/
def othersProject (secret : String) : World :=
  ({ Db.empty with
      users := ⟨[⟨1, "a@b.c", "", "A", .employee, true, 0, 0, none⟩], by simp⟩
      projects := ⟨[⟨3, secret, none, .planning, none, none, 2, 0, 0, none⟩], by simp⟩
      tasks := ⟨[⟨4, 3, secret, none, .todo, .medium, none, none, 1000, 2, 1, 0, 0, none⟩], by simp⟩
      comments := ⟨[⟨5, 4, 2, secret, 0, 0, none⟩], by simp⟩
      fileAttachments := ⟨[⟨6, 4, 2, secret, secret, none, 1, 0⟩], by simp⟩ },
    fun key => if key = secret then some secret.toUTF8.data.toList else none)

theorem othersProject_same (secret secret' : String) : SameButHidden 1 (othersProject secret) (othersProject secret') where
  users := rfl
  members := rfl
  notifications := rfl
  refreshTokens := rfl
  projects := .cons (Or.inr ⟨fun m hm => absurd hm List.not_mem_nil, rfl, rfl⟩) .nil
  tasks := .cons (Or.inr ⟨fun m hm => absurd hm List.not_mem_nil, rfl, rfl, rfl⟩) .nil
  comments := .cons (Or.inr ⟨⟨_, List.mem_singleton.mpr rfl, rfl, fun m hm => absurd hm List.not_mem_nil⟩, rfl, rfl, rfl⟩) .nil
  files := .cons (Or.inr ⟨⟨_, List.mem_singleton.mpr rfl, rfl, fun m hm => absurd hm List.not_mem_nil⟩, rfl, rfl⟩) .nil
  blobs := by
    have hidden : ∀ s, HiddenKey 1 (othersProject s).1 s := fun s =>
      ⟨_, List.mem_singleton.mpr rfl, ⟨_, List.mem_singleton.mpr rfl, rfl, fun m hm => absurd hm List.not_mem_nil⟩, rfl⟩
    intro key h h'
    have hne : key ≠ secret := fun he => h (he ▸ hidden secret)
    have hne' : key ≠ secret' := fun he => h' (he ▸ hidden secret')
    simp [othersProject, hne, hne']
  present := by
    rintro key ⟨f, hf, -, hname⟩ ⟨g, hg, -, hname'⟩
    obtain rfl := List.mem_singleton.mp hf
    obtain rfl := List.mem_singleton.mp hg
    obtain rfl : secret = key := hname
    obtain rfl : secret' = secret := hname'
    rfl

theorem othersProject_new {secret : String} (hlen : secret.length < 32) (uuid4 : Uuid) (name : String) :
    ¬HiddenKey 1 (othersProject secret).1 (keyFor uuid4 name) := by
  rintro ⟨f, hf, -, hname⟩
  obtain rfl := List.mem_singleton.mp hf
  have hlength : secret.length = (keyFor uuid4 name).length := congrArg String.length hname
  simp only [keyFor, Uuid.hex, String.length_ofList, List.length_append, List.length_map, List.length_range] at hlength
  omega

theorem ActsAs.of_bearer {c : Call} (h : ∀ token, c.bearer = some token → token.sub = some u) : ActsAs u c := by
  intro payload id hpayload hsub
  obtain ⟨token, htoken, hdecoded⟩ := Option.bind_eq_some_iff.mp hpayload
  unfold decodeAccessToken at hdecoded
  split at hdecoded
  · obtain rfl := Option.some.inj hdecoded
    exact Option.some.inj (hsub.symm.trans (h token htoken))
  · simp at hdecoded

def othersRequests : List Input :=
  [⟨Call.sample 1 (some 1), .listProjects {}⟩, ⟨Call.sample 2 (some 1), .getTask 4⟩,
    ⟨Call.sample 3 (some 1), .downloadFile 6⟩, ⟨Call.sample 4 none, .getProject 3⟩]

theorem hidden_projects_confidential_sample :
    responses .sample othersRequests (othersProject "P") = responses .sample othersRequests (othersProject "Q") := by
  have unique : ∀ s, UniqueNames (othersProject s).1 := fun s f hf g hg _ =>
    (List.mem_singleton.mp hf).trans (List.mem_singleton.mp hg).symm
  have employee : ∀ v ∈ (othersProject "P").1.users.rows, v.id = 1 → v.role = .employee := fun v hv _ => by
    rw [List.mem_singleton.mp hv]
  have own : ∀ n, ActsAs 1 (Call.sample n (some 1)) := fun n => .of_bearer fun token htoken => by
    rw [← Option.some.inj htoken]
  have anonymous : ∀ n, ActsAs 1 (Call.sample n none) := fun n => .of_bearer fun token htoken => absurd htoken (by simp [Call.sample])
  have caller : ∀ i ∈ othersRequests, ActsAs 1 i.call := by
    intro i hi
    simp only [othersRequests, List.mem_cons, List.not_mem_nil, or_false] at hi
    rcases hi with rfl | rfl | rfl | rfl
    · exact own 1
    · exact own 2
    · exact own 3
    · exact anonymous 4
  exact hidden_projects_confidential .sample (othersProject_same "P" "Q") employee (unique _) (unique _) caller
    fun i _ name => iff_of_false (othersProject_new (by decide) _ name) (othersProject_new (by decide) _ name)

end ProjectManagement
