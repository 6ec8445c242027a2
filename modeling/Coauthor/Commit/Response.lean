import Coauthor.Identifier
import Coauthor.Json.Record

/-!
# Answers to a pushed commit
-/

namespace Coauthor

inductive CommitStatus where
  /-- The branch was advanced to the commit. -/
  | synced
  /-- The branch could not be advanced; the local work needs a decision. -/
  | forked
  /-- The commit was merged with the head of the branch. -/
  | merged
  /-- The commit was dropped before it reached the branch. -/
  | canceled
  deriving DecidableEq, Repr, Inhabited

namespace CommitStatus

def text : CommitStatus → String
  | synced => "SYNCED"
  | forked => "FORKED"
  | merged => "MERGED"
  | canceled => "CANCELED"

def ofText? : String → Option CommitStatus
  | "SYNCED" => some synced
  | "FORKED" => some forked
  | "MERGED" => some merged
  | "CANCELED" => some canceled
  | _ => none

theorem ofText?_text (status : CommitStatus) : ofText? status.text = some status := by
  cases status <;> rfl

def toJson (status : CommitStatus) : Json := .string status.text

def ofJson? (value : Json) : Option CommitStatus := value.word? >>= ofText?

end CommitStatus

/-- A server's answer as it arrives; its status may be any word. -/
structure CommitResponse where
  status : String
  hash : CommitHash
  mergeHash : Option CommitHash
  deriving DecidableEq, Repr, Inhabited

namespace CommitResponse

def of (status : CommitStatus) (hash : CommitHash) : CommitResponse :=
  { status := status.text, hash, mergeHash := none }

def merged (hash mergeHash : CommitHash) : CommitResponse :=
  { status := CommitStatus.merged.text, hash, mergeHash := some mergeHash }

def status? (response : CommitResponse) : Option CommitStatus :=
  CommitStatus.ofText? response.status

def fieldNames : List String := ["status", "hash", "mergeHash"]

def toJson (response : CommitResponse) : Json :=
  .object ([("status", .string response.status), ("hash", .string response.hash)] ++
    Json.optionalEntry "mergeHash" response.mergeHash)

def ofJson? (value : Json) : Option CommitResponse := do
  let fields ← value.fields? fieldNames
  return {
    status := ← Json.required fields "status" Json.string?
    hash := ← Json.required fields "hash" Json.string?
    mergeHash := ← Json.optional fields "mergeHash" Json.string? }

end CommitResponse

end Coauthor
