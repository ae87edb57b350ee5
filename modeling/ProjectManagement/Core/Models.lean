import ProjectManagement.Library.Table
import ProjectManagement.Shared.Enums

/-! The rows of every table. Timestamp columns no response and no query reads are left out. -/

namespace ProjectManagement

open Library

structure User where
  id : Uuid
  email : String
  hashedPassword : String
  fullName : String
  role : UserRole
  isActive : Bool
  createdAt : Time
  updatedAt : Time
  deletedAt : Option Time
  deriving DecidableEq, Repr

structure RefreshToken where
  id : Uuid
  tokenHash : String
  userId : Uuid
  familyId : Uuid
  expiresAt : Time
  revoked : Bool
  replacedById : Option Uuid
  deriving DecidableEq, Repr

structure Project where
  id : Uuid
  name : String
  description : Option String
  status : ProjectStatus
  startDate : Option Date
  endDate : Option Date
  createdBy : Uuid
  createdAt : Time
  updatedAt : Time
  deletedAt : Option Time
  deriving DecidableEq, Repr

structure ProjectMember where
  id : Uuid
  projectId : Uuid
  userId : Uuid
  role : MemberRole
  deriving DecidableEq, Repr

/-- `position` is a float column, read as an exact rational. -/
structure Task where
  id : Uuid
  projectId : Uuid
  title : String
  description : Option String
  status : TaskStatus
  priority : TaskPriority
  assigneeId : Option Uuid
  dueDate : Option Date
  position : ℚ
  createdBy : Uuid
  version : ℕ
  createdAt : Time
  updatedAt : Time
  deletedAt : Option Time
  deriving DecidableEq

structure Comment where
  id : Uuid
  taskId : Uuid
  userId : Uuid
  content : String
  createdAt : Time
  updatedAt : Time
  deletedAt : Option Time
  deriving DecidableEq, Repr

structure FileAttachment where
  id : Uuid
  taskId : Uuid
  uploadedBy : Uuid
  originalFilename : String
  storedFilename : String
  contentType : Option String
  sizeBytes : ℕ
  createdAt : Time
  deriving DecidableEq, Repr

structure Notification where
  id : Uuid
  userId : Uuid
  type : NotificationType
  title : String
  message : String
  isRead : Bool
  createdAt : Time
  deriving DecidableEq, Repr

instance : Keyed User Uuid := ⟨User.id⟩
instance : Keyed RefreshToken Uuid := ⟨RefreshToken.id⟩
instance : Keyed Project Uuid := ⟨Project.id⟩
instance : Keyed ProjectMember Uuid := ⟨ProjectMember.id⟩
instance : Keyed Task Uuid := ⟨Task.id⟩
instance : Keyed Comment Uuid := ⟨Comment.id⟩
instance : Keyed FileAttachment Uuid := ⟨FileAttachment.id⟩
instance : Keyed Notification Uuid := ⟨Notification.id⟩

@[simp] theorem key_user (u : User) : Keyed.key u = u.id := rfl
@[simp] theorem key_refreshToken (t : RefreshToken) : Keyed.key t = t.id := rfl
@[simp] theorem key_project (p : Project) : Keyed.key p = p.id := rfl
@[simp] theorem key_projectMember (m : ProjectMember) : Keyed.key m = m.id := rfl
@[simp] theorem key_task (t : Task) : Keyed.key t = t.id := rfl
@[simp] theorem key_comment (c : Comment) : Keyed.key c = c.id := rfl
@[simp] theorem key_fileAttachment (f : FileAttachment) : Keyed.key f = f.id := rfl
@[simp] theorem key_notification (n : Notification) : Keyed.key n = n.id := rfl

/-- `is_deleted` negated: the row is not soft-deleted. -/
def User.live (u : User) : Bool := u.deletedAt.isNone

def Project.live (p : Project) : Bool := p.deletedAt.isNone

def Task.live (t : Task) : Bool := t.deletedAt.isNone

def Comment.live (c : Comment) : Bool := c.deletedAt.isNone

structure Db where
  users : Table User
  projects : Table Project
  projectMembers : Table ProjectMember
  tasks : Table Task
  comments : Table Comment
  fileAttachments : Table FileAttachment
  notifications : Table Notification
  refreshTokens : Table RefreshToken

def Db.empty : Db :=
  ⟨Table.empty, Table.empty, Table.empty, Table.empty, Table.empty, Table.empty, Table.empty, Table.empty⟩

end ProjectManagement
