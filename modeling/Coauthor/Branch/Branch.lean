import Coauthor.Commit.Data
import Coauthor.Branch.Status

/-!
# Branches

What a client knows of one branch: the local head, the last head that the server
confirmed, and three queues, oldest element first.
-/

namespace Coauthor

structure Branch where
  project : ProjectId
  name : BranchName
  /-- The latest commit made here or taken over from the server. -/
  localHead : CommitHash
  /-- The last head that the server confirmed. -/
  originHead : CommitHash
  /-- The server has not gone another way than the queued commits. -/
  inSync : Bool
  status : BranchStatus
  /-- Commits made here that the server has not accepted. -/
  commits : List CommitData
  /-- Announced heads that have not been loaded. -/
  updates : List CommitData
  /-- Requests that wait until no commit is queued. -/
  workers : List Nat
  deriving Repr, Inhabited

namespace Branch

def start (project : ProjectId) (name : BranchName) (head : CommitHash) : Branch :=
  { project, name, localHead := head, originHead := head, inSync := true, status := .sync,
    commits := [], updates := [], workers := [] }

def queueCommit (branch : Branch) (data : CommitData) : Branch :=
  { branch with commits := branch.commits ++ [data] }

def firstCommit? (branch : Branch) : Option CommitData := branch.commits.head?

def dropCommit (branch : Branch) : Branch := { branch with commits := branch.commits.tail }

def hasCommit (branch : Branch) (hash : CommitHash) : Bool :=
  branch.commits.any (·.hash = hash)

def queueUpdate (branch : Branch) (data : CommitData) : Branch :=
  { branch with updates := branch.updates ++ [data] }

def firstUpdate? (branch : Branch) : Option CommitData := branch.updates.head?

def dropUpdate (branch : Branch) : Branch := { branch with updates := branch.updates.tail }

def hasUpdate (branch : Branch) (hash : CommitHash) : Bool :=
  branch.updates.any (·.hash = hash)

def queueWorker (branch : Branch) (request : Nat) : Branch :=
  { branch with workers := branch.workers ++ [request] }

/-- The hash is one of the two heads. -/
def isHead (branch : Branch) (hash : CommitHash) : Bool :=
  hash = branch.localHead || hash = branch.originHead

/-- The hash is a head or waits in a queue. -/
def knows (branch : Branch) (hash : CommitHash) : Bool :=
  branch.isHead hash || branch.hasCommit hash || branch.hasUpdate hash

end Branch

end Coauthor
