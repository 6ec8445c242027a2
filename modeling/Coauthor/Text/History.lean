import Coauthor.Table
import Coauthor.Text.Apply
import Coauthor.Text.Transform
import Coauthor.Text.Message

/-!
# The history of a shared text

The server keeps the text and every operation that led to it.  An operation made
on an older revision is carried over all that was applied since and appended.  An
operation that a client sends again is recognised by its number.
-/

namespace Coauthor

structure History where
  content : Text
  /-- The applied operations, oldest first. -/
  entries : List AppliedOperation
  /-- The highest number applied for each client. -/
  appliedSeqs : Table ClientId Nat
  deriving Repr, Inhabited

/-- What the server did with a message. -/
inductive Received where
  | applied (entry : AppliedOperation)
  | duplicate (seq revision : Nat)
  deriving DecidableEq, Repr, Inhabited

namespace History

def start (content : Text) : History := { content, entries := [], appliedSeqs := ∅ }

def revision (history : History) : Nat := history.entries.length

/-- The entries behind a revision. -/
def since (history : History) (revision : Nat) : Except OperationError (List AppliedOperation) :=
  if revision > history.revision then .error (.revisionAhead revision history.revision)
  else .ok (history.entries.drop revision)

/-- The message repeats an operation that was already applied. -/
def isDuplicate (history : History) (message : OperationMessage) : Bool :=
  match history.appliedSeqs.get? message.clientId with
  | none => false
  | some last => message.seq ≤ last

/-- The revision that a repeated operation reached. -/
def duplicateRevision (history : History) (message : OperationMessage) : Nat :=
  match history.entries.find? fun entry =>
      entry.clientId = message.clientId && entry.seq = message.seq with
  | some entry => entry.revision
  | none => history.revision

/-- Carries an operation over concurrent ones, in order. -/
def rebase (operation : Operation) : List AppliedOperation → Except OperationError Operation
  | [] => .ok operation
  | applied :: rest => do
      let (operation, _) ← operation.transform applied.operation
      rebase operation rest

def append (history : History) (content : Text) (entry : AppliedOperation) : History :=
  { content, entries := history.entries ++ [entry],
    appliedSeqs := history.appliedSeqs.insert entry.clientId entry.seq }

def receive (history : History) (message : OperationMessage) :
    Except OperationError (History × Received) := do
  if history.isDuplicate message then
    return (history, .duplicate message.seq (history.duplicateRevision message))
  else
    let operation ← rebase message.operation (← history.since message.revision)
    let content ← operation.apply history.content
    let entry : AppliedOperation :=
      { revision := history.revision + 1, clientId := message.clientId, seq := message.seq,
        operation }
    return (history.append content entry, .applied entry)

end History

end Coauthor
