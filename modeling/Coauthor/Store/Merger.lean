import Coauthor.Commit.Data

/-!
# Merging

What a store makes of a pushed commit that does not fit the head of its branch.
-/

namespace Coauthor

/-- The merge of a pushed commit with a head, or nothing to report a fork. -/
abbrev Merger := (pushed head : CommitData) → Option CommitData

namespace Merger

def never : Merger := fun _ _ => none

/-- The commit that keeps the pushed snapshot on top of both. -/
def snapshotCommit (pushed head : CommitData) : Commit :=
  Commit.sealed {
    id := ""
    root := pushed.commit.root
    parents := [head.hash, pushed.hash]
    updater := []
    time := max pushed.commit.time head.commit.time + 1
    message := "merge " ++ pushed.hash ++ " into " ++ head.hash
    branchName := none }

/-- Records a commit with two parents; of two objects under one key the pushed one
wins. -/
def snapshot : Merger := fun pushed head =>
  some {
    projectId := pushed.projectId
    branchName := pushed.branchName
    commit := snapshotCommit pushed head
    coreObjects := head.coreObjects.extend pushed.coreObjects
    oldHash := none }

end Merger

end Coauthor
