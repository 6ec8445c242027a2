import Coauthor.Identifier
import Coauthor.Quoted.Text
import Coauthor.Remote

/-!
# Failures of a branch

The causes for which a commit, a resolution or an answer of the server is refused,
and the wording of each.
-/

namespace Coauthor

inductive SyncError where
  /-- The commit was not made on the local head. -/
  | staleParent (expected : CommitHash) (actual : Option CommitHash)
  | notForked
  | busy
  | unexpectedStatus (status : String)
  | missingMergeHash
  | ackMismatch (expected actual : CommitHash)
  | loadRejected (hash : CommitHash) (reason : String)
  | branchMissing (name : BranchName)
  | remote (error : RemoteError)
  deriving DecidableEq, Repr, Inhabited

namespace SyncError

/-- A parent as a message cites it. -/
def citedParent : Option CommitHash → String
  | none => "None"
  | some hash => "Some(CommitHash(" ++ Quoted.quote hash ++ "))"

def message : SyncError → String
  | staleParent expected actual =>
      "Stale parent: branch is at " ++ expected ++ ", commit is based on " ++ citedParent actual
  | notForked => "Branch is not waiting on a fork resolution"
  | busy => "Branch is busy with another request"
  | unexpectedStatus status => "Server answered with unexpected status " ++ Quoted.quote status
  | missingMergeHash => "Server reported a merge without a merge hash"
  | ackMismatch expected actual =>
      "Server acknowledged " ++ actual ++ " while " ++ expected ++ " was in flight"
  | loadRejected hash reason => "Consumer rejected commit " ++ hash ++ ": " ++ reason
  | branchMissing name => "Branch " ++ name ++ " no longer exists on the server"
  | remote error => "Remote error: " ++ error.message

/-- The commit can be made again on another parent. -/
def isConflict : SyncError → Bool
  | staleParent .. => true
  | _ => false

end SyncError

/-- Why the local model did not load a commit. -/
inductive DeliveryError where
  | rejected (reason : String)
  | remote (error : RemoteError)
  deriving DecidableEq, Repr, Inhabited

namespace DeliveryError

def message : DeliveryError → String
  | rejected reason => "Rejected: " ++ reason
  | remote error => "Remote error: " ++ error.message

def isTransport : DeliveryError → Bool
  | rejected _ => false
  | remote error => error.isTransport

end DeliveryError

end Coauthor
