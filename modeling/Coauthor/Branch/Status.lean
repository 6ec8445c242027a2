import Coauthor.Json.Record

/-!
# The state of a branch in words

How a branch stands against the server, and why a commit is handed to the local
model.
-/

namespace Coauthor

inductive BranchStatus where
  /-- The local head is the head of the server. -/
  | sync
  /-- Commits wait, and the server follows so far. -/
  | aheadSync
  /-- Commits wait, and the server has gone another way. -/
  | aheadNotSync
  /-- A commit of the server is being loaded. -/
  | pulling
  /-- Stopped by an error until a retry. -/
  | error
  deriving DecidableEq, Repr, Inhabited

namespace BranchStatus

def text : BranchStatus → String
  | sync => "SYNC"
  | aheadSync => "AHEAD_SYNC"
  | aheadNotSync => "AHEAD_NOT_SYNC"
  | pulling => "PULLING"
  | error => "ERROR"

def ofText? : String → Option BranchStatus
  | "SYNC" => some sync
  | "AHEAD_SYNC" => some aheadSync
  | "AHEAD_NOT_SYNC" => some aheadNotSync
  | "PULLING" => some pulling
  | "ERROR" => some error
  | _ => none

theorem ofText?_text (status : BranchStatus) : ofText? status.text = some status := by
  cases status <;> rfl

def toJson (status : BranchStatus) : Json := .string status.text

def ofJson? (value : Json) : Option BranchStatus := value.word? >>= ofText?

end BranchStatus

/-- Why a commit is handed to the local model. -/
inductive LoadReason where
  /-- Another client advanced the branch. -/
  | update
  /-- The server merged a pushed commit with its head. -/
  | merge
  /-- The head moved while nobody listened. -/
  | catchUp
  deriving DecidableEq, Repr, Inhabited

namespace LoadReason

def text : LoadReason → String
  | update => "update"
  | merge => "merge"
  | catchUp => "catchUp"

def ofText? : String → Option LoadReason
  | "update" => some update
  | "merge" => some merge
  | "catchUp" => some catchUp
  | _ => none

theorem ofText?_text (reason : LoadReason) : ofText? reason.text = some reason := by
  cases reason <;> rfl

def toJson (reason : LoadReason) : Json := .string reason.text

def ofJson? (value : Json) : Option LoadReason := value.word? >>= ofText?

end LoadReason

end Coauthor
