import Coauthor.Branch.Error
import Coauthor.Branch.Resolution
import Coauthor.Branch.Status
import Coauthor.Commit.Data
import Coauthor.Commit.Response

/-!
# What a coordinator exchanges

The round trips that it asks for, the answers to them, and the events by which it
tells what became of the local commits.
-/

namespace Coauthor

inductive Request where
  /-- Make the first queued commit on the server. -/
  | push (data : CommitData)
  /-- Load a commit into the local model; without data it is fetched first. -/
  | deliver (hash : CommitHash) (data : Option CommitData) (reason : LoadReason)
  /-- Listen to the announcements of the branch anew. -/
  | subscribe
  | fetchHead
  | findAncestor (queued head : CommitHash)
  /-- Make a commit on the server without advancing a branch. -/
  | store (data : CommitData)
  | createBranch (name : BranchName) (hash : CommitHash)
  /-- Move the head of the branch; without an old head the move is forced. -/
  | setHead (old : Option CommitHash) (new : CommitHash)
  deriving Repr, Inhabited

/-- The outcome of the request made last. -/
inductive Response where
  | pushed (result : Except RemoteError CommitResponse)
  | delivered (result : Except DeliveryError Unit)
  | subscribed (result : Except RemoteError Unit)
  | head (result : Except RemoteError (Option CommitHash))
  | ancestor (result : Except RemoteError CommitHash)
  | stored (result : Except RemoteError CommitResponse)
  | branchCreated (result : Except RemoteError Unit)
  | headSet (result : Except RemoteError CommitResponse)
  deriving Inhabited

inductive SyncEvent where
  | status (status : BranchStatus)
  /-- What finally became of a local commit. -/
  | settled (hash : CommitHash) (status : CommitStatus)
  /-- The branch waits for a fork resolution. -/
  | forked (localHead originHead : CommitHash)
  /-- The server dropped these commits; they have to be made again. -/
  | canceled (dropped : List CommitHash)
  | forkCreated (branchName : BranchName) (hash : CommitHash)
  /-- No commit is queued, and these requests may run on the head. -/
  | workersReleased (requests : List Nat) (head : CommitHash)
  | failed (error : SyncError)
  deriving DecidableEq, Repr, Inhabited

end Coauthor
