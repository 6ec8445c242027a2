import Coauthor.Text.Apply
import Coauthor.Text.EditClient
import Coauthor.Text.Message

/-!
# Documents

A document is one shared text as one client shows it: the text, the edit client
behind it, the messages waiting to be sent and the listeners that hear of every
change.  A refused edit, remote operation or acknowledgement leaves no trace.
-/

namespace Coauthor

structure Document where
  id : DocumentId
  clientId : ClientId
  content : Text
  client : EditClient
  /-- Messages to be sent, oldest first. -/
  outbox : List OperationMessage
  /-- The listeners in the order of their registration. -/
  listeners : List String
  /-- Each call of a listener with the text it was given, oldest first. -/
  changes : List (String × Text)
  deriving Repr, Inhabited

namespace Document

def start (id : DocumentId) (clientId : ClientId) (content : Text) (revision : Nat) : Document :=
  { id, clientId, content, client := .start revision, outbox := [], listeners := [],
    changes := [] }

def revision (document : Document) : Nat := document.client.revision

def listen (document : Document) (listener : String) : Document :=
  { document with listeners := document.listeners ++ [listener] }

/-- Tells every listener the current text. -/
def announce (document : Document) : Document :=
  { document with
    changes := document.changes ++ document.listeners.map (·, document.content) }

/-- Queues what the edit client wants sent. -/
def post (document : Document) : Option Submission → Document
  | none => document
  | some submission =>
      let message : OperationMessage :=
        { clientId := document.clientId, seq := submission.outstanding.seq,
          revision := submission.revision, operation := submission.outstanding.operation }
      { document with outbox := document.outbox ++ [message] }

/-- An edit made on this client. -/
def edit (document : Document) (operation : Operation) : Except OperationError Document := do
  let content ← operation.apply document.content
  let (client, submission) ← document.client.applyLocal operation
  return ({ document with content, client }.post submission).announce

/-- The next operation of another client. -/
def applyRemote (document : Document) (operation : Operation) :
    Except OperationError Document := do
  let (client, visible) ← document.client.applyRemote operation
  let content ← visible.apply document.content
  return { document with content, client }.announce

def acknowledge (document : Document) : Except OperationError Document := do
  let (client, submission) ← document.client.acknowledge
  return { document with client }.post submission

/-- The client waits for the acknowledgement of this number. -/
def isOutstanding (document : Document) (seq : Nat) : Bool :=
  document.client.outstanding?.map (·.seq) = some seq

/-- One entry of the history that the client may have missed.  Its own outstanding
operation counts as the acknowledgement. -/
def catchUpWith (document : Document) (applied : AppliedOperation) :
    Except OperationError Document :=
  if applied.revision ≤ document.revision then .ok document
  else if applied.clientId = document.clientId ∧ document.isOutstanding applied.seq then
    document.acknowledge
  else document.applyRemote applied.operation

/-- Takes in missed entries in order and stops at the first that does not fit. -/
def catchUp (document : Document) : List AppliedOperation → Document × Except OperationError Unit
  | [] => (document, .ok ())
  | applied :: missed =>
      match document.catchUpWith applied with
      | .error error => (document, .error error)
      | .ok document => document.catchUp missed

/-- Queues the outstanding operation again. -/
def resend (document : Document) : Document := document.post document.client.resend

/-- Hands out the messages to be sent. -/
def takeOutgoing (document : Document) : Document × List OperationMessage :=
  ({ document with outbox := [] }, document.outbox)

/-- Hands out the calls of listeners. -/
def takeChanges (document : Document) : Document × List (String × Text) :=
  ({ document with changes := [] }, document.changes)

end Document

end Coauthor
