import Coauthor.Text.Apply
import Coauthor.Text.EditClient

/-!
# Editing desks

An edit client beside the text that it edits.
-/

namespace Coauthor

structure Desk where
  client : EditClient
  text : Text
  deriving Repr, Inhabited

namespace Desk

def start (revision : Nat) (text : Text) : Desk := { client := .start revision, text }

/-- What a step leaves behind, and what it wants sent. -/
abbrev Result := Desk × Except OperationError (Option Submission)

/-- Takes a step of the client over, if it succeeds. -/
def take (desk : Desk) (attempt : Except OperationError (Desk × Option Submission)) : Result :=
  match attempt with
  | .ok (desk, submission) => (desk, .ok submission)
  | .error error => (desk, .error error)

/-- Hands an operation to the client without a look at the text. -/
def submit (desk : Desk) (operation : Operation) : Result :=
  desk.take do
    let (client, submission) ← desk.client.applyLocal operation
    return ({ desk with client }, submission)

/-- An edit made here changes the text first.  One that does not fit the text is
refused, unless the client is to judge it all the same. -/
def edit (desk : Desk) (operation : Operation) (force : Bool) : Result :=
  match operation.apply desk.text with
  | .ok text => submit { desk with text } operation
  | .error error => if force then desk.submit operation else (desk, .error error)

def applyRemote (desk : Desk) (operation : Operation) : Result :=
  desk.take do
    let (client, visible) ← desk.client.applyRemote operation
    return ({ client, text := ← visible.apply desk.text }, none)

def acknowledge (desk : Desk) : Result :=
  desk.take do
    let (client, submission) ← desk.client.acknowledge
    return ({ desk with client }, submission)

end Desk

end Coauthor
