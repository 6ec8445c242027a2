import Coauthor.Branch.Error
import Coauthor.Commit.Response
import Coauthor.Text.Error

/-!
# Failures of a session
-/

namespace Coauthor

inductive SessionError where
  /-- Nobody serves the session any more. -/
  | stopped
  /-- The server closed the document. -/
  | closed (document : DocumentId)
  | sync (error : SyncError)
  | operation (error : OperationError)
  | remote (error : RemoteError)
  deriving DecidableEq, Repr, Inhabited

namespace SessionError

def message : SessionError → String
  | stopped => "Session stopped"
  | closed document => "Document " ++ document ++ " was closed by the server"
  | sync error => error.message
  | operation error => error.message
  | remote error => error.message

end SessionError

/-- Where an answer is waited for. -/
abbrev Ticket := Nat

/-- What a session answers to a command. -/
inductive Reply where
  | done
  | status (status : CommitStatus)
  | head (hash : CommitHash)
  | refused (error : SessionError)
  deriving DecidableEq, Repr, Inhabited

end Coauthor
