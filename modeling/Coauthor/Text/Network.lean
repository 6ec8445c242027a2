import Coauthor.Text.History
import Coauthor.Text.Notice

/-!
# A network of editors

One history and the documents of its clients, joined by an outbox and an inbox for
each client.  A message reaches the server when its client sends; acknowledgements
and operations wait in the inboxes in the order of the server.  Queues may be lost
at any time, and a client that rejoins asks for what it missed.
-/

namespace Coauthor

/-- A client with its queues, oldest element first. -/
structure Editor where
  document : Document
  outbox : List OperationMessage
  inbox : List Notice
  deriving Repr, Inhabited

structure Network where
  history : History
  editors : Table ClientId Editor
  deriving Repr, Inhabited

namespace Editor

def start (name : ClientId) (text : Text) : Editor :=
  { document := .start "doc" name text 0, outbox := [], inbox := [] }

/-- Moves the document's outgoing messages to the outbox. -/
def flush (editor : Editor) : Editor :=
  let (document, messages) := editor.document.takeOutgoing
  { editor with document, outbox := editor.outbox ++ messages }

def hear (editor : Editor) (notice : Notice) : Editor :=
  { editor with inbox := editor.inbox ++ [notice] }

/-- The operation that types `text` over `delete` characters at a position, which is
taken modulo the number of places. -/
def typing (content : Text) (position delete : Nat) (text : Text) : Operation :=
  let length := content.length
  let start := position % (length + 1)
  let cut := min delete (length - start)
  .ofComponents [.retain start, .delete cut, .insert text, .retain (length - start - cut)]

end Editor

namespace Network

def start (text : Text) (names : List ClientId) : Network :=
  { history := .start text,
    editors := .ofList (names.map fun name => (name, Editor.start name text)) }

def setEditor (network : Network) (name : ClientId) (editor : Editor) : Network :=
  { network with editors := network.editors.insert name editor.flush }

/-- What each inbox gains when the server received a message of `sender`. -/
def noticeFor (sender name : ClientId) : Received → Option Notice
  | .applied entry =>
      some (if name = sender then .ack entry.seq entry.revision else .operation entry)
  | .duplicate seq revision => if name = sender then some (.ack seq revision) else none

def broadcast (network : Network) (sender : ClientId) (received : Received) : Network :=
  { network with editors := network.editors.mapValues fun name editor =>
      match noticeFor sender name received with
      | none => editor
      | some notice => editor.hear notice }

/-- Edits a client's document. -/
def edit (network : Network) (name : ClientId) (editor : Editor) (operation : Operation) :
    Except OperationError Network := do
  return network.setEditor name { editor with document := ← editor.document.edit operation }

/-- Hands the first message of a client's outbox to the server.  A refused message is
lost; an empty outbox answers nothing. -/
def send (network : Network) (name : ClientId) (editor : Editor) :
    Network × Except OperationError (Option Received) :=
  match editor.outbox with
  | [] => (network, .ok none)
  | message :: rest =>
      let network := network.setEditor name { editor with outbox := rest }
      match network.history.receive message with
      | .error error => (network, .error error)
      | .ok (history, received) =>
          ({ network with history }.broadcast name received, .ok (some received))

/-- Lets a client handle the first notice of its inbox. -/
def receive (network : Network) (name : ClientId) (editor : Editor) :
    Network × Except OperationError (Option Handled) :=
  match editor.inbox with
  | [] => (network, .ok none)
  | notice :: rest =>
      let editor := { editor with inbox := rest }
      match editor.document.handle notice with
      | .error error => (network.setEditor name editor, .error error)
      | .ok (document, handled) =>
          (network.setEditor name { editor with document }, .ok (some handled))

/-- Loses everything on its way to and from a client. -/
def drop (network : Network) (name : ClientId) (editor : Editor) : Network :=
  network.setEditor name { editor with outbox := [], inbox := [] }

/-- Brings a client up to date and lets it send its outstanding operation again. -/
def rejoin (network : Network) (name : ClientId) (editor : Editor) :
    Network × Except OperationError Unit :=
  match network.history.since editor.document.revision with
  | .error error => (network, .error error)
  | .ok missed =>
      match editor.document.catchUp missed with
      | (document, .error error) => (network.setEditor name { editor with document }, .error error)
      | (document, .ok ()) =>
          (network.setEditor name { editor with document := document.resend }, .ok ())

end Network

end Coauthor
