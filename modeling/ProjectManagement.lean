import ProjectManagement.RefreshFamilies
import ProjectManagement.WriteSet
import ProjectManagement.SoftDeletion
import ProjectManagement.FileRoundTrip
import ProjectManagement.Confidentiality
import ProjectManagement.OptimisticLocking
import ProjectManagement.StaleReads
import ProjectManagement.PasswordChange
import ProjectManagement.AccountDeletion
import ProjectManagement.Administrators
import ProjectManagement.Privileges
import ProjectManagement.NotificationFeed
import ProjectManagement.PageWalk
import ProjectManagement.Assignment
import ProjectManagement.Authentication
import ProjectManagement.Dashboard
import ProjectManagement.EmailUniqueness
import ProjectManagement.Registration
import ProjectManagement.Journal
import ProjectManagement.Kanban
import ProjectManagement.EnumOrder
import ProjectManagement.Figures
import ProjectManagement.Passwords
import ProjectManagement.Search
import ProjectManagement.TaskVersions
import ProjectManagement.PatchResponses
import ProjectManagement.Schema
import ProjectManagement.Served
import ProjectManagement.ReferentialIntegrity
import ProjectManagement.PartialUpdates
import ProjectManagement.UploadAtomicity
import ProjectManagement.StorageKeys
import ProjectManagement.StorageAgreement
import ProjectManagement.UnknownSort
import ProjectManagement.DatabaseUrl
import ProjectManagement.CacheExpiry
import ProjectManagement.Library.Erasure
import ProjectManagement.Library.Provenance
import ProjectManagement.Library.References
import ProjectManagement.Library.Rotation
import ProjectManagement.Library.Raising
import ProjectManagement.SignInStore
import ProjectManagement.SignInRefinement
import ProjectManagement.SignUps
import ProjectManagement.AccountStanding
import ProjectManagement.Boards
import ProjectManagement.FeedScroll
import ProjectManagement.Memberships
import ProjectManagement.Retries
import ProjectManagement.Credentials
import ProjectManagement.MemberSessions
import ProjectManagement.ConcurrentMembers
import ProjectManagement.Library.LiveRows
import ProjectManagement.Threads
