import Coauthor.Text.Document

/-!
# Notices

What the server tells a client about the history of a document, in the order of the
history, and how a document takes it.  A notice may arrive twice; the second time it
changes nothing.
-/

namespace Coauthor

inductive Notice where
  /-- The receiver's own operation `seq` was applied as `revision`. -/
  | ack (seq revision : Nat)
  /-- An operation of another client was applied. -/
  | operation (applied : AppliedOperation)
  deriving DecidableEq, Repr, Inhabited

/-- How taking one notice went. -/
inductive Handled where
  | done
  /-- The acknowledged operation is not outstanding. -/
  | staleAck
  /-- The document already contains the operation. -/
  | replayed
  deriving DecidableEq, Repr, Inhabited

namespace Document

def handle (document : Document) : Notice → Except OperationError (Document × Handled)
  | .ack seq _ =>
      if document.isOutstanding seq then do return (← document.acknowledge, .done)
      else .ok (document, .staleAck)
  | .operation applied =>
      if applied.revision ≤ document.revision then .ok (document, .replayed)
      else do return (← document.applyRemote applied.operation, .done)

end Document

end Coauthor
