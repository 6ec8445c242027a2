import Coauthor.Json.Record
import Coauthor.Session.Error

/-!
# Reports of failures

A refused call is reported by the kind of its cause and the wording of it.
-/

namespace Coauthor

namespace Json

def failure (kind message : String) : Json :=
  object [("error", string kind), ("message", string message)]

end Json

namespace OperationError

def kind : OperationError → String
  | baseLengthMismatch .. => "BaseLengthMismatch"
  | composeLengthMismatch .. => "ComposeLengthMismatch"
  | transformLengthMismatch .. => "TransformLengthMismatch"
  | incompatible _ => "Incompatible"
  | unexpectedAck => "UnexpectedAck"
  | revisionAhead .. => "RevisionAhead"
  | invalid _ => "Invalid"

def report (error : OperationError) : Json := .failure error.kind error.message

end OperationError

namespace RemoteError

def kind : RemoteError → String
  | disconnected => "Disconnected"
  | timeout => "Timeout"
  | notFound _ => "NotFound"
  | rejected _ => "Rejected"

def report (error : RemoteError) : Json := .failure error.kind error.message

end RemoteError

namespace SyncError

def kind : SyncError → String
  | staleParent .. => "StaleParent"
  | notForked => "NotForked"
  | busy => "Busy"
  | unexpectedStatus _ => "UnexpectedStatus"
  | missingMergeHash => "MissingMergeHash"
  | ackMismatch .. => "AckMismatch"
  | loadRejected .. => "LoadRejected"
  | branchMissing _ => "BranchMissing"
  | remote _ => "Remote"

/-- The entries of a report, which also says whether the commit can be made again. -/
def entries (error : SyncError) : List (String × Json) :=
  [("error", .string error.kind), ("message", .string error.message),
    ("conflict", .bool error.isConflict)]

def report (error : SyncError) : Json := .object error.entries

end SyncError

namespace SessionError

def report : SessionError → Json
  | stopped => .failure "Stopped" stopped.message
  | closed document => .failure "Closed" (closed document).message
  | sync error => error.report
  | operation error => error.report
  | remote error => error.report

end SessionError

namespace Reply

def report : Reply → Json
  | done => .string "ok"
  | status outcome => outcome.toJson
  | head hash => .string hash
  | refused error => error.report

end Reply

end Coauthor
