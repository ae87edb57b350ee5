import ProjectManagement.Library.Refinement
import ProjectManagement.PartialUpdates
import ProjectManagement.ProjectVisibility
import ProjectManagement.ReferentialIntegrity
import ProjectManagement.WriteSet

/-!
The memberships are a register, which only accepted additions and removals write: what an employee reaches is
decided by the last one about them.
-/

namespace ProjectManagement

open Library

variable {D : Deployment} {c : Call} {e : Event} {w w' : World} {d d' : Db} {u : User} {m : ProjectMember} {a : ApiResponse}
  {projectId userId : Uuid} {request : Request} {es : List Event}

/-- The project whose members may make the request, where it concerns one. -/
def Request.project (d : Db) : Request → Option Uuid
  | .getProject id | .listProjectTasks id _ | .kanbanBoard id | .projectAnalytics id => (ProjectRepository.find id d).map Project.id
  | .createTask p => (ProjectRepository.find p.projectId d).map Project.id
  | .getTask id | .updateTask id _ | .updateTaskStatus id _ | .deleteTask id | .listComments id _ | .createComment id _
  | .listFiles id | .uploadFile id _ => (TaskRepository.find id d).map Task.projectId
  | .updateComment id _ | .deleteComment id =>
    (CommentRepository.find id d).bind fun m => (TaskRepository.find m.taskId d).map Task.projectId
  | .downloadFile id => (FileRepository.find id d).bind fun f => (TaskRepository.find f.taskId d).map Task.projectId
  | _ => none

def Request.shows : Request → Bool
  | .getProject _ | .kanbanBoard _ | .projectAnalytics _ | .getTask _ | .listFiles _ => true
  | _ => false

section Gates

variable {id : Uuid}

end Gates

end ProjectManagement
