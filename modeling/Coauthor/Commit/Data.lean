import Coauthor.Table
import Coauthor.Commit.Commit

/-!
# Commit data

What peers exchange: a commit with the model objects it introduces and the branch
that it is to advance, if any.
-/

namespace Coauthor

abbrev CoreObjects := Table String Json

structure CommitData where
  projectId : ProjectId
  /-- The branch to advance; without one the commit is only stored. -/
  branchName : Option BranchName
  commit : Commit
  coreObjects : CoreObjects
  /-- The head that the branch is expected to have, when that is not the parent. -/
  oldHash : Option CommitHash
  deriving Repr, Inhabited

namespace CommitData

def hash (data : CommitData) : CommitHash := data.commit.id

def withCoreObject (data : CommitData) (key : String) (value : Json) : CommitData :=
  { data with coreObjects := data.coreObjects.insert key value }

/-- The head at which the branch can be advanced without a merge. -/
def expectedHead (data : CommitData) : Option CommitHash := data.oldHash <|> data.commit.parent?

/-- The same commit, to be stored without advancing a branch. -/
def withoutBranch (data : CommitData) : CommitData :=
  { data with branchName := none, oldHash := none }

def fieldNames : List String :=
  ["projectId", "branchName", "commitObject", "coreObjects", "oldHash"]

def toJson (data : CommitData) : Json :=
  .object ([("projectId", .string data.projectId)] ++
    Json.optionalEntry "branchName" data.branchName ++
    [("commitObject", data.commit.toJson), ("coreObjects", .object data.coreObjects.entries)] ++
    Json.optionalEntry "oldHash" data.oldHash)

def coreObjects? : Json → Option CoreObjects
  | .object entries => some (.ofList entries)
  | _ => none

def ofJson? (value : Json) : Option CommitData := do
  let fields ← value.fields? fieldNames
  return {
    projectId := ← Json.required fields "projectId" Json.string?
    branchName := ← Json.optional fields "branchName" Json.string?
    commit := ← Json.required fields "commitObject" Commit.ofJson?
    coreObjects := ← Json.defaulted fields "coreObjects" ∅ coreObjects?
    oldHash := ← Json.optional fields "oldHash" Json.string? }

end CommitData

end Coauthor
