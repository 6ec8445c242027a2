import Coauthor.Text.Compose
import Coauthor.Text.Transform

/-!
# Unacknowledged edits

An edit client knows which of its own edits the server has not acknowledged.  At
most one operation is outstanding; edits made meanwhile are composed into a buffer,
which becomes the next outstanding operation when the acknowledgement arrives.
The revision counts the operations of the server that the client has taken in, its
own acknowledged ones included.
-/

namespace Coauthor

/-- An operation sent to the server; a repeated sending keeps the number. -/
structure Outstanding where
  seq : Nat
  operation : Operation
  deriving DecidableEq, Repr, Inhabited

inductive Pending where
  | synchronized
  | awaitingConfirm (outstanding : Outstanding)
  /-- The buffer applies to the text behind the outstanding operation. -/
  | awaitingWithBuffer (outstanding : Outstanding) (buffer : Operation)
  deriving DecidableEq, Repr, Inhabited

structure EditClient where
  revision : Nat
  nextSeq : Nat
  pending : Pending
  deriving DecidableEq, Repr, Inhabited

/-- An outstanding operation on its way, with the revision it is based on. -/
structure Submission where
  revision : Nat
  outstanding : Outstanding
  deriving DecidableEq, Repr, Inhabited

namespace Pending

def outstanding? : Pending → Option Outstanding
  | synchronized => none
  | awaitingConfirm outstanding => some outstanding
  | awaitingWithBuffer outstanding _ => some outstanding

end Pending

namespace EditClient

/-- A client that has taken in the first `revision` operations and made none. -/
def start (revision : Nat) : EditClient :=
  { revision, nextSeq := 1, pending := .synchronized }

def outstanding? (client : EditClient) : Option Outstanding := client.pending.outstanding?

/-- Makes an operation the outstanding one, under the next number. -/
def issue (client : EditClient) (operation : Operation) : EditClient × Submission :=
  let outstanding : Outstanding := { seq := client.nextSeq, operation }
  ({ client with nextSeq := client.nextSeq + 1, pending := .awaitingConfirm outstanding },
    { revision := client.revision, outstanding })

/-- Takes in an edit that the local text already shows. -/
def applyLocal (client : EditClient) (operation : Operation) :
    Except OperationError (EditClient × Option Submission) :=
  match client.pending with
  | .synchronized =>
      let (client, submission) := client.issue operation
      .ok (client, some submission)
  | .awaitingConfirm outstanding =>
      .ok ({ client with pending := .awaitingWithBuffer outstanding operation }, none)
  | .awaitingWithBuffer outstanding buffer => do
      let buffer ← buffer.compose operation
      return ({ client with pending := .awaitingWithBuffer outstanding buffer }, none)

/-- Takes in the next operation of another client.  Answers the client behind it and
the operation as it applies to the local text. -/
def applyRemote (client : EditClient) (operation : Operation) :
    Except OperationError (EditClient × Operation) :=
  match client.pending with
  | .synchronized => .ok ({ client with revision := client.revision + 1 }, operation)
  | .awaitingConfirm outstanding => do
      let (waiting, visible) ← outstanding.operation.transform operation
      let outstanding := { outstanding with operation := waiting }
      return ({ client with
        revision := client.revision + 1, pending := .awaitingConfirm outstanding }, visible)
  | .awaitingWithBuffer outstanding buffer => do
      let (waiting, behind) ← outstanding.operation.transform operation
      let (buffer, visible) ← buffer.transform behind
      let outstanding := { outstanding with operation := waiting }
      return ({ client with
        revision := client.revision + 1,
        pending := .awaitingWithBuffer outstanding buffer }, visible)

/-- Takes in the acknowledgement of the outstanding operation and sends the buffer. -/
def acknowledge (client : EditClient) : Except OperationError (EditClient × Option Submission) :=
  match client.pending with
  | .synchronized => .error .unexpectedAck
  | .awaitingConfirm _ =>
      .ok ({ client with revision := client.revision + 1, pending := .synchronized }, none)
  | .awaitingWithBuffer _ buffer =>
      let (client, submission) := { client with revision := client.revision + 1 }.issue buffer
      .ok (client, some submission)

/-- The outstanding operation once more, as it stands now. -/
def resend (client : EditClient) : Option Submission :=
  client.outstanding?.map fun outstanding => { revision := client.revision, outstanding }

end EditClient

end Coauthor
