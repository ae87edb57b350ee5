import ProjectManagement.Modules.Analytics
import ProjectManagement.Modules.Comments
import ProjectManagement.Modules.Files

/-!
The routes. A handler resolves its dependencies, then the request body is validated, then the
service runs; `step` is one whole request, committed or rolled back. A request to `register`, `login`
or `refresh` is one that the rate limiter in front of them has let through.
-/

namespace ProjectManagement

open Library

inductive Request
  | register (payload : UserRegister)
  | login (username password : String)
  | refresh (refreshToken : String)
  | logout (refreshToken : String)
  | me
  | changePassword (payload : ChangePassword)
  | listUsers (params : PageParams)
  | createUser (payload : UserCreate)
  | getUser (userId : Uuid)
  | updateUser (userId : Uuid) (payload : UserUpdate)
  | updateRole (userId : Uuid) (payload : UserRoleUpdate)
  | deleteUser (userId : Uuid)
  | listProjects (params : PageParams)
  | createProject (payload : ProjectCreate)
  | getProject (projectId : Uuid)
  | updateProject (projectId : Uuid) (payload : ProjectUpdate)
  | deleteProject (projectId : Uuid)
  | addMember (projectId : Uuid) (payload : MemberAdd)
  | removeMember (projectId userId : Uuid)
  | listProjectTasks (projectId : Uuid) (params : PageParams)
  | kanbanBoard (projectId : Uuid)
  | createTask (payload : TaskCreate)
  | getTask (taskId : Uuid)
  | updateTask (taskId : Uuid) (payload : TaskUpdate)
  | updateTaskStatus (taskId : Uuid) (payload : TaskStatusUpdate)
  | deleteTask (taskId : Uuid)
  | listComments (taskId : Uuid) (params : PageParams)
  | createComment (taskId : Uuid) (payload : CommentPayload)
  | updateComment (commentId : Uuid) (payload : CommentPayload)
  | deleteComment (commentId : Uuid)
  | listFiles (taskId : Uuid)
  | uploadFile (taskId : Uuid) (file : UploadFile)
  | downloadFile (fileId : Uuid)
  | listNotifications (params : PageParams)
  | markRead (notificationId : Uuid)
  | markAllRead
  | dashboard
  | projectAnalytics (projectId : Uuid)

def Request.errors : Request → List ErrorDetail
  | .register p => p.errors
  | .login username password => loginErrors username password
  | .changePassword p => p.errors
  | .createUser p => p.errors
  | .updateUser _ p => p.errors
  | .createProject p => p.errors
  | .updateProject _ p => p.errors
  | .createTask p => p.errors
  | .updateTask _ p => p.errors
  | .createComment _ p | .updateComment _ p => p.errors
  | .listUsers params | .listProjects params | .listProjectTasks _ params | .listComments _ params
  | .listNotifications params => params.errors
  | _ => []

/-- The `data` of a success envelope; `file` is the raw body of a download. -/
inductive Data
  | none
  | user (u : UserOut)
  | users (us : List UserOut)
  | login (accessToken : AccessToken) (refreshToken : String) (user : UserOut)
  | tokens (pair : TokenPair)
  | project (p : ProjectOut)
  | projects (ps : List ProjectOut)
  | projectDetail (p : ProjectDetailOut)
  | member (m : MemberOut)
  | task (t : TaskOut)
  | tasks (ts : List TaskOut)
  | board (b : KanbanBoard)
  | comment (m : CommentOut)
  | comments (ms : List CommentOut)
  | attachment (f : FileOut)
  | attachments (fs : List FileOut)
  | file (bytes : Bytes) (filename mediaType : String)
  | notification (n : NotificationOut)
  | notifications (ns : List NotificationOut)
  | report (r : DashboardReport)
  | analytics (a : ProjectAnalytics)
  deriving DecidableEq

structure ApiResponse where
  statusCode : ℕ := 200
  message : Option String := none
  data : Data
  pagination : Option PaginationMeta := none
  deriving DecidableEq

def noContent : ApiResponse := { statusCode := 204, data := .none }

namespace Routes

variable (D : Deployment) (c : Call)

/-! Auth. -/

def registerWith (insert : User → Db → Except Raised Db) (p : UserRegister) : App ApiResponse := do
  validated p.errors
  let user ← AuthService.registerWith D c insert p
  pure { statusCode := 201, message := some "Registration successful", data := .user (UserOut.modelValidate user) }

abbrev register (p : UserRegister) : App ApiResponse := registerWith D c (Db.insertUser D.engine) p

def login (username password : String) : App ApiResponse := do
  validated (loginErrors username password)
  let r ← AuthService.login D c username password
  pure { message := some "Login successful",
         data := .login r.1.accessToken r.1.refreshToken (UserOut.modelValidate r.2) }

def refresh (refreshToken : String) : App ApiResponse := do
  let pair ← AuthService.refresh D c refreshToken
  pure { message := some "Token refreshed", data := .tokens pair }

def logout (refreshToken : String) : App ApiResponse := do
  AuthService.logout D refreshToken
  pure noContent

def me : App ApiResponse := do
  let user ← getCurrentUser c
  pure { data := .user (UserOut.modelValidate user) }

def changePasswordWith (put : User → Db → Except Raised Db) (p : ChangePassword) : App ApiResponse := do
  let user ← getCurrentUser c
  validated p.errors
  AuthService.changePasswordWith D c put user p
  pure noContent

abbrev changePassword (p : ChangePassword) : App ApiResponse := changePasswordWith D c (Db.putUser D.engine) p

/-! Users. -/

def listUsersWith (sorter : Sorter User) (params : PageParams) : App ApiResponse := do
  let actor ← getCurrentUser c
  requireAdmin actor
  validated params.errors
  let r ← UserService.listUsersWith D sorter params
  pure { data := .users (r.1.map UserOut.modelValidate), pagination := some r.2 }

abbrev listUsers (params : PageParams) : App ApiResponse := listUsersWith D c (orderBy D.engine) params

def createUserWith (insert : User → Db → Except Raised Db) (p : UserCreate) : App ApiResponse := do
  let actor ← getCurrentUser c
  requireAdmin actor
  validated p.errors
  let user ← UserService.createUserWith D c insert p
  pure { statusCode := 201, message := some "User created", data := .user (UserOut.modelValidate user) }

abbrev createUser (p : UserCreate) : App ApiResponse := createUserWith D c (Db.insertUser D.engine) p

def getUser (userId : Uuid) : App ApiResponse := do
  let actor ← getCurrentUser c
  let user ← UserService.getUser userId actor
  pure { data := .user (UserOut.modelValidate user) }

def updateUserWith (put : User → Db → Except Raised Db) (userId : Uuid) (p : UserUpdate) : App ApiResponse := do
  let actor ← getCurrentUser c
  validated p.errors
  let user ← UserService.updateUserWith D c put userId p actor
  pure { message := some "User updated", data := .user (UserOut.modelValidate user) }

abbrev updateUser (userId : Uuid) (p : UserUpdate) : App ApiResponse := updateUserWith D c (Db.putUser D.engine) userId p

def updateRoleWith (put : User → Db → Except Raised Db) (userId : Uuid) (p : UserRoleUpdate) : App ApiResponse := do
  let actor ← getCurrentUser c
  requireAdmin actor
  let user ← UserService.updateRoleWith D c put userId p
  pure { message := some "Role updated", data := .user (UserOut.modelValidate user) }

abbrev updateRole (userId : Uuid) (p : UserRoleUpdate) : App ApiResponse := updateRoleWith D c (Db.putUser D.engine) userId p

def deleteUserWith (put : User → Db → Except Raised Db) (userId : Uuid) : App ApiResponse := do
  let actor ← getCurrentUser c
  requireAdmin actor
  UserService.deleteUserWith D c put userId actor
  pure noContent

abbrev deleteUser (userId : Uuid) : App ApiResponse := deleteUserWith D c (Db.putUser D.engine) userId

/-! Projects. -/

def projectDetail (message : Option String) (r : Project × List LoadedMember) : App ApiResponse := do
  let members ← Tx.orRaise (r.2.mapM MemberOut.modelValidate) .unexpected
  pure { message := message, data := .projectDetail ⟨ProjectOut.modelValidate r.1, members⟩ }

def listProjectsWith (sorter : Sorter Project) (params : PageParams) : App ApiResponse := do
  let actor ← getCurrentUser c
  validated params.errors
  let r ← ProjectService.listProjectsWith D sorter actor params
  pure { data := .projects (r.1.map ProjectOut.modelValidate), pagination := some r.2 }

abbrev listProjects (params : PageParams) : App ApiResponse := listProjectsWith D c (orderBy D.engine) params

def createProject (p : ProjectCreate) : App ApiResponse := do
  let actor ← getCurrentUser c
  requireAdmin actor
  validated p.errors
  let project ← ProjectService.createProject D c p actor
  pure { statusCode := 201, message := some "Project created", data := .project (ProjectOut.modelValidate project) }

def getProject (projectId : Uuid) : App ApiResponse := do
  let actor ← getCurrentUser c
  let _ ← requireProjectView projectId actor
  let r ← ProjectService.getProjectDetail projectId
  projectDetail none r

def updateProject (projectId : Uuid) (p : ProjectUpdate) : App ApiResponse := do
  let actor ← getCurrentUser c
  requireAdmin actor
  validated p.errors
  let r ← ProjectService.updateProject D c projectId p
  projectDetail (some "Project updated") r

def deleteProject (projectId : Uuid) : App ApiResponse := do
  let actor ← getCurrentUser c
  requireAdmin actor
  ProjectService.deleteProject D c projectId
  pure noContent

def addMember (projectId : Uuid) (p : MemberAdd) : App ApiResponse := do
  let actor ← getCurrentUser c
  requireAdmin actor
  let loaded ← ProjectService.addMember D c projectId p actor
  let member ← Tx.orRaise (MemberOut.modelValidate loaded) .unexpected
  pure { statusCode := 201, message := some "Member added", data := .member member }

def removeMember (projectId userId : Uuid) : App ApiResponse := do
  let actor ← getCurrentUser c
  requireAdmin actor
  ProjectService.removeMember projectId userId
  pure noContent

/-! Tasks. -/

def accessibleTask (taskId : Uuid) : App (User × LoadedTask) := do
  let actor ← getCurrentUser c
  let task ← getAccessibleTask taskId actor
  pure (actor, task)

def listProjectTasksWith (sorter : Sorter Task) (projectId : Uuid) (params : PageParams) : App ApiResponse := do
  let actor ← getCurrentUser c
  let _ ← requireProjectView projectId actor
  validated params.errors
  let r ← TaskService.listForProjectWith D sorter projectId params
  pure { data := .tasks (r.1.map TaskOut.modelValidate), pagination := some r.2 }

abbrev listProjectTasks (projectId : Uuid) (params : PageParams) : App ApiResponse :=
  listProjectTasksWith D c (orderBy D.engine) projectId params

def kanbanBoard (projectId : Uuid) : App ApiResponse := do
  let actor ← getCurrentUser c
  let _ ← requireProjectView projectId actor
  let board ← TaskService.kanbanBoard D projectId
  let column := fun status => (board status).map TaskOut.modelValidate
  pure { data := .board ⟨column .todo, column .inProgress, column .inReview, column .done⟩ }

def createTask (p : TaskCreate) : App ApiResponse := do
  let actor ← getCurrentUser c
  validated p.errors
  let allowed ← mayAccess p.projectId actor
  Tx.refuseIf (allowed = false) (.app (forbiddenError "You are not a member of this project"))
  let task ← TaskService.createTask D c p actor
  pure { statusCode := 201, message := some "Task created", data := .task (TaskOut.modelValidate task) }

def getTask (taskId : Uuid) : App ApiResponse := do
  let r ← accessibleTask c taskId
  pure { data := .task (TaskOut.modelValidate r.2) }

def updateTask (taskId : Uuid) (p : TaskUpdate) : App ApiResponse := do
  let r ← accessibleTask c taskId
  validated p.errors
  let updated ← TaskService.updateTask D c r.2 p r.1
  pure { message := some "Task updated", data := .task (TaskOut.modelValidate updated) }

def updateTaskStatus (taskId : Uuid) (p : TaskStatusUpdate) : App ApiResponse := do
  let r ← accessibleTask c taskId
  let updated ← TaskService.updateStatus D c r.2 p
  pure { message := some "Task status updated", data := .task (TaskOut.modelValidate updated) }

def deleteTask (taskId : Uuid) : App ApiResponse := do
  let r ← accessibleTask c taskId
  TaskService.deleteTask D c r.2
  pure noContent

/-! Comments. -/

def listComments (taskId : Uuid) (params : PageParams) : App ApiResponse := do
  let r ← accessibleTask c taskId
  validated params.errors
  let page ← CommentService.listForTask D r.2.row.id params
  let comments ← Tx.orRaise (page.1.mapM CommentOut.modelValidate) .unexpected
  pure { data := .comments comments, pagination := some page.2 }

def createComment (taskId : Uuid) (p : CommentPayload) : App ApiResponse := do
  let r ← accessibleTask c taskId
  validated p.errors
  let loaded ← CommentService.create D c r.2.row.id p r.1
  let comment ← Tx.orRaise (CommentOut.modelValidate loaded) .unexpected
  pure { statusCode := 201, message := some "Comment added", data := .comment comment }

/-- The comment first, then the access check on its task. -/
def accessibleComment (commentId : Uuid) (actor : User) : App LoadedComment := do
  let comment ← CommentService.get commentId
  let _ ← getAccessibleTask comment.row.taskId actor
  pure comment

def updateComment (commentId : Uuid) (p : CommentPayload) : App ApiResponse := do
  let actor ← getCurrentUser c
  validated p.errors
  let _ ← accessibleComment commentId actor
  let updated ← CommentService.update D c commentId p actor
  let comment ← Tx.orRaise (CommentOut.modelValidate updated) .unexpected
  pure { message := some "Comment updated", data := .comment comment }

def deleteComment (commentId : Uuid) : App ApiResponse := do
  let actor ← getCurrentUser c
  let _ ← accessibleComment commentId actor
  let _ ← CommentService.delete D c commentId actor
  pure noContent

/-! Files. -/

def listFiles (taskId : Uuid) : App ApiResponse := do
  let r ← accessibleTask c taskId
  let loaded ← FileService.listForTask D r.2.row.id
  let files ← Tx.orRaise (loaded.mapM FileOut.modelValidate) .unexpected
  pure { data := .attachments files }

def uploadFile (taskId : Uuid) (file : UploadFile) : App ApiResponse := do
  let r ← accessibleTask c taskId
  let loaded ← FileService.upload D c r.2.row.id file r.1
  let attachment ← Tx.orRaise (FileOut.modelValidate loaded) .unexpected
  pure { statusCode := 201, message := some "File uploaded", data := .attachment attachment }

def downloadFile (fileId : Uuid) : App ApiResponse := do
  let actor ← getCurrentUser c
  let loaded ← FileService.getAttachment fileId
  let _ ← getAccessibleTask loaded.row.taskId actor
  let bytes ← FileService.resolveDownloadPath D loaded.row
  let mediaType := textOr loaded.row.contentType "application/octet-stream"
  pure { data := .file bytes loaded.row.originalFilename mediaType }

/-! Notifications. -/

def listNotifications (params : PageParams) : App ApiResponse := do
  let user ← getCurrentUser c
  validated params.errors
  let r ← NotificationService.listForUser D user.id params
  pure { data := .notifications (r.1.map NotificationOut.modelValidate), pagination := some r.2 }

def markRead (notificationId : Uuid) : App ApiResponse := do
  let user ← getCurrentUser c
  let notification ← NotificationService.markRead notificationId user.id
  pure { message := some "Notification read", data := .notification (NotificationOut.modelValidate notification) }

def markAllRead : App ApiResponse := do
  let user ← getCurrentUser c
  NotificationService.markAllRead user.id
  pure noContent

/-! Reports. -/

def dashboard : App ApiResponse := do
  let actor ← getCurrentUser c
  requireAdmin actor
  let report ← AnalyticsService.dashboard D c
  pure { data := .report report }

def projectAnalytics (projectId : Uuid) : App ApiResponse := do
  let actor ← getCurrentUser c
  let _ ← requireProjectView projectId actor
  let analytics ← AnalyticsService.projectAnalytics c projectId
  pure { data := .analytics analytics }

end Routes

def handle (D : Deployment) (c : Call) : Request → App ApiResponse
  | .register p => Routes.register D c p
  | .login username password => Routes.login D c username password
  | .refresh token => Routes.refresh D c token
  | .logout token => Routes.logout D token
  | .me => Routes.me c
  | .changePassword p => Routes.changePassword D c p
  | .listUsers params => Routes.listUsers D c params
  | .createUser p => Routes.createUser D c p
  | .getUser id => Routes.getUser c id
  | .updateUser id p => Routes.updateUser D c id p
  | .updateRole id p => Routes.updateRole D c id p
  | .deleteUser id => Routes.deleteUser D c id
  | .listProjects params => Routes.listProjects D c params
  | .createProject p => Routes.createProject D c p
  | .getProject id => Routes.getProject c id
  | .updateProject id p => Routes.updateProject D c id p
  | .deleteProject id => Routes.deleteProject D c id
  | .addMember id p => Routes.addMember D c id p
  | .removeMember id user => Routes.removeMember c id user
  | .listProjectTasks id params => Routes.listProjectTasks D c id params
  | .kanbanBoard id => Routes.kanbanBoard D c id
  | .createTask p => Routes.createTask D c p
  | .getTask id => Routes.getTask c id
  | .updateTask id p => Routes.updateTask D c id p
  | .updateTaskStatus id p => Routes.updateTaskStatus D c id p
  | .deleteTask id => Routes.deleteTask D c id
  | .listComments id params => Routes.listComments D c id params
  | .createComment id p => Routes.createComment D c id p
  | .updateComment id p => Routes.updateComment D c id p
  | .deleteComment id => Routes.deleteComment D c id
  | .listFiles id => Routes.listFiles D c id
  | .uploadFile id file => Routes.uploadFile D c id file
  | .downloadFile id => Routes.downloadFile D c id
  | .listNotifications params => Routes.listNotifications D c params
  | .markRead id => Routes.markRead c id
  | .markAllRead => Routes.markAllRead c
  | .dashboard => Routes.dashboard D c
  | .projectAnalytics id => Routes.projectAnalytics c id

abbrev World := Db × Blobs

structure Input where
  call : Call
  request : Request

abbrev Outcome := Except Raised ApiResponse

def step (D : Deployment) (i : Input) (w : World) : Outcome × World := (handle D i.call i.request).run w

def outcome (D : Deployment) (i : Input) (w : World) : Outcome := (step D i w).1

def next (D : Deployment) (i : Input) (w : World) : World := (step D i w).2

end ProjectManagement
