import Coauthor.Commit.Response
import Coauthor.Remote
import Coauthor.Store.Ancestry
import Coauthor.Store.Merger
import Coauthor.Subscription

/-!
# The commit store

The server's authority on projects: their commits, the heads of their branches, and
who listens to which branch.  A pushed commit advances its branch if it expects the
head that the branch has.  Otherwise it is merged, if the store can merge it, or
reported as forked.  A commit whose parent is unknown is dropped.
-/

namespace Coauthor

structure Project where
  commits : Commits
  branches : Table BranchName CommitHash
  deriving Repr

instance : Inhabited Project := ⟨{ commits := ∅, branches := ∅ }⟩

/-- What can be listened to. -/
abbrev BranchTopic := ProjectId × BranchName

structure Store where
  merger : Merger
  projects : Table ProjectId Project
  watchers : Subscriptions BranchTopic CommitData

namespace Store

def start (merger : Merger) : Store := { merger, projects := ∅, watchers := ∅ }

instance : Inhabited Store := ⟨start .never⟩

def project (store : Store) (id : ProjectId) : Except RemoteError Project :=
  match store.projects.get? id with
  | some project => .ok project
  | none => .error (.notFound id)

def setProject (store : Store) (id : ProjectId) (project : Project) : Store :=
  { store with projects := store.projects.insert id project }

/-- Starts a branch of a project at a root commit. -/
def createProject (store : Store) (id : ProjectId) (branch : BranchName) (root : CommitData) :
    Store :=
  let project := (store.projects.get? id).getD default
  store.setProject id
    { commits := project.commits.insert root.hash root
      branches := project.branches.insert branch root.hash }

/-- Points a branch at a stored commit and tells everyone who listens. -/
def advance (store : Store) (id : ProjectId) (branch : BranchName) (hash : CommitHash) :
    Except RemoteError Store := do
  let project ← store.project id
  match project.commits.get? hash with
  | none => .error (.notFound hash)
  | some data =>
      let store := store.setProject id
        { project with branches := project.branches.insert branch hash }
      return { store with watchers := store.watchers.send (id, branch) data }

/-- Stores a commit unless it is stored already. -/
def keep (project : Project) (data : CommitData) : Project :=
  if project.commits.contains data.hash then project
  else { project with commits := project.commits.insert data.hash data }

/-- The first parent is stored, if there is one. -/
def knowsParent (project : Project) (data : CommitData) : Bool :=
  match data.commit.parent? with
  | none => true
  | some parent => project.commits.contains parent

/-- The merge of a pushed commit with a head. -/
def merge? (store : Store) (project : Project) (data : CommitData) (head : CommitHash) :
    Option CommitData :=
  project.commits.get? head >>= store.merger data

/-- Brings a stored commit onto its branch. -/
def land (store : Store) (project : Project) (data : CommitData) (branch : BranchName)
    (head : CommitHash) : Except RemoteError (Store × CommitResponse) := do
  let id := data.projectId
  if head = data.hash then return (store, .of .synced data.hash)
  else if data.expectedHead = some head then
    return (← store.advance id branch data.hash, .of .synced data.hash)
  else match store.merge? project data head with
    | none => return (store, .of .forked data.hash)
    | some merge =>
        let store := store.setProject id
          { project with commits := project.commits.insert merge.hash merge }
        return (← store.advance id branch merge.hash, .merged data.hash merge.hash)

/-- Takes a pushed commit.  A refused one may have been stored all the same, so the
store is given in every case. -/
def makeCommit (store : Store) (data : CommitData) : Store × Except RemoteError CommitResponse :=
  if data.commit.isIntact = false then
    (store, .error (.rejected (data.hash ++ " does not match its content")))
  else match store.project data.projectId with
  | .error error => (store, .error error)
  | .ok project =>
      if knowsParent project data = false then (store, .ok (.of .canceled data.hash))
      else
        let project := keep project data
        let store := store.setProject data.projectId project
        match data.branchName with
        | none => (store, .ok (.of .synced data.hash))
        | some branch =>
            match project.branches.get? branch with
            | none => (store, .error (.notFound branch))
            | some head =>
                match store.land project data branch head with
                | .error error => (store, .error error)
                | .ok (store, response) => (store, .ok response)

def branchHead (store : Store) (id : ProjectId) (branch : BranchName) :
    Except RemoteError (Option CommitHash) := do
  return (← store.project id).branches.get? branch

/-- The commit nearest to `b` that both `a` and `b` descend from. -/
def commonAncestor (store : Store) (id : ProjectId) (a b : CommitHash) :
    Except RemoteError CommitHash := do
  let project ← store.project id
  if project.commits.contains a = false then .error (.notFound a)
  else if project.commits.contains b = false then .error (.notFound b)
  else match project.commits.commonAncestor? a b with
    | some hash => return hash
    | none => .error (.notFound ("common ancestor of " ++ a ++ " and " ++ b))

def load (store : Store) (id : ProjectId) (hash : CommitHash) : Except RemoteError CommitData := do
  match (← store.project id).commits.get? hash with
  | some data => return data
  | none => .error (.notFound hash)

def createBranch (store : Store) (id : ProjectId) (branch : BranchName) (hash : CommitHash) :
    Except RemoteError Store := do
  if (← store.project id).branches.contains branch then
    .error (.rejected ("branch " ++ branch ++ " already exists"))
  else store.advance id branch hash

/-- Moves the head of a branch, if it still is `old`; without `old` in any case. -/
def setHead (store : Store) (id : ProjectId) (branch : BranchName) (old : Option CommitHash)
    (new : CommitHash) : Except RemoteError (Store × CommitResponse) := do
  let current := (← store.project id).branches.get? branch
  if old.isSome ∧ current ≠ old then return (store, .of .forked new)
  else return (← store.advance id branch new, .of .synced new)

/-- Opens a stream of the heads that a branch will have. -/
def watch (store : Store) (id : ProjectId) (branch : BranchName) (client : ClientId) :
    Except RemoteError (Store × SubscriptionId) := do
  let _ ← store.project id
  let (watchers, stream) := store.watchers.subscribe (id, branch) client
  return ({ store with watchers }, stream)

/-- Forgets what a client listens to. -/
def detach (store : Store) (client : ClientId) : Store :=
  { store with watchers := store.watchers.detach client }

def commitCount (store : Store) (id : ProjectId) : Nat :=
  match store.projects.get? id with
  | some project => project.commits.size
  | none => 0

end Store

end Coauthor
