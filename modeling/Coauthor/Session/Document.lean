import Coauthor.Connection
import Coauthor.Room.Rooms
import Coauthor.Session.Error
import Coauthor.Text.Notice

/-!
# Document sessions

A session keeps one document in step with its room: it sends what the document wants
sent, takes in the events of the room, and rejoins the room when the connection comes
back.  To rejoin, it watches the room anew from the revision it has, takes in what it
missed, its own outstanding operation among it, and only then sends again what is
still outstanding.

The session works over any document service; the state of the service is passed
along.
-/

namespace Coauthor

/-- How a session reaches the room of its document. -/
structure DocumentService (Service : Type) where
  /-- Watches the document, behind a revision that is known already. -/
  watch : Service → Option Nat → Service × Except RemoteError (Welcome × SubscriptionId)
  send : Service → OperationMessage → Service × Except RemoteError Unit
  unwatch : Service → Service × Except RemoteError Unit

inductive DocumentCommand where
  | edit (operation : Operation) (ticket : Ticket)
  | listen (listener : String)
  | close
  deriving DecidableEq, Repr, Inhabited

structure DocumentSession where
  document : Document
  /-- The stream of the room's events, while the session follows one. -/
  stream : Option SubscriptionId
  /-- The next connect has to rejoin, whatever it reports. -/
  needsRejoin : Bool
  /-- The document was closed for good; it can still be read. -/
  closed : Bool
  stopped : Bool
  /-- How many transitions of the connection have been taken in. -/
  seen : Nat
  /-- Commands that wait, oldest first. -/
  commands : List DocumentCommand
  /-- Answers to be handed out. -/
  replies : List (Ticket × Reply)
  deriving Repr, Inhabited

namespace DocumentSession

variable {Service : Type}

/-- Follows a document from what the room says of it. -/
def start (id : DocumentId) (client : ClientId) (welcome : Welcome) (stream : SubscriptionId)
    (connection : Connection) : DocumentSession :=
  { document := .start id client welcome.content welcome.revision
    stream := some stream
    needsRejoin := !connection.isConnected
    closed := false
    stopped := false
    seen := connection.transitions
    commands := []
    replies := [] }

def openSession (service : DocumentService Service) (state : Service) (id : DocumentId)
    (client : ClientId) (connection : Connection) : Service × Except RemoteError DocumentSession :=
  match service.watch state none with
  | (state, .error error) => (state, .error error)
  | (state, .ok (welcome, stream)) => (state, .ok (start id client welcome stream connection))

def reply (session : DocumentSession) (ticket : Ticket) (reply : Reply) : DocumentSession :=
  { session with replies := session.replies ++ [(ticket, reply)] }

/-- Gives the document up after an error that cannot be mended. -/
def giveUp (session : DocumentSession) : DocumentSession :=
  { session with closed := true, stream := none }

def closedByServer (session : DocumentSession) : DocumentSession :=
  { session.giveUp with needsRejoin := false }

/-- Takes in how sending went.  After a fault of the transport the rejoin sends again;
a refused operation will never be acknowledged. -/
def sent (session : DocumentSession) : Except RemoteError Unit → DocumentSession
  | .ok () => session
  | .error (.notFound _) => session.closedByServer
  | .error error =>
      if error.isTransport then { session with needsRejoin := true } else session.giveUp

/-- Sends messages in order, until the document is closed. -/
def sendAll (service : DocumentService Service) (session : DocumentSession) (state : Service) :
    List OperationMessage → DocumentSession × Service
  | [] => (session, state)
  | message :: rest =>
      if session.closed then (session, state)
      else
        let (state, result) := service.send state message
        sendAll service (session.sent result) state rest

/-- Sends what the document wants sent. -/
def flush (service : DocumentService Service) (session : DocumentSession) (state : Service) :
    DocumentSession × Service :=
  let (document, messages) := session.document.takeOutgoing
  sendAll service { session with document } state messages

def rejoin (service : DocumentService Service) (session : DocumentSession) (state : Service) :
    DocumentSession × Service :=
  match service.watch state (some session.document.revision) with
  | (state, .error (.notFound _)) => (session.closedByServer, state)
  | (state, .error _) => ({ session with needsRejoin := true }, state)
  | (state, .ok (welcome, stream)) =>
      let session := { session with needsRejoin := false, stream := some stream }
      match session.document.catchUp welcome.missed with
      | (document, .error _) => ({ session with document }.giveUp, state)
      | (document, .ok ()) => flush service { session with document := document.resend } state

/-! ## Inputs -/

def onConnection (service : DocumentService Service) (session : DocumentSession)
    (connection : Connection) (state : Service) : DocumentSession × Service :=
  let session := { session with seen := connection.transitions }
  if session.closed then (session, state)
  else match connection.state with
    | .disconnected | .reconnecting | .error => ({ session with needsRejoin := true }, state)
    | .connected => if session.needsRejoin then rejoin service session state else (session, state)
    | .reconnected => rejoin service session state

def onNotice (service : DocumentService Service) (session : DocumentSession) (notice : Notice)
    (state : Service) : DocumentSession × Service :=
  match session.document.handle notice with
  | .error _ => (session.giveUp, state)
  | .ok (document, .done) => flush service { session with document } state
  | .ok (_, _) => (session, state)

def onEvent (service : DocumentService Service) (session : DocumentSession)
    (event : DocumentEvent) (state : Service) : DocumentSession × Service :=
  match event with
  | .ack seq revision => onNotice service session (.ack seq revision) state
  | .operation applied => onNotice service session (.operation applied) state
  | .closed => (session.closedByServer, state)

/-- The stream of events has ended. -/
def onEventsEnded (session : DocumentSession) : DocumentSession := { session with stream := none }

/-- Leaves the room and stops. -/
def leave (service : DocumentService Service) (session : DocumentSession) (state : Service) :
    DocumentSession × Service :=
  let refused := session.commands.filterMap fun command =>
    match command with
    | .edit _ ticket => some (ticket, Reply.refused .stopped)
    | _ => none
  let stopped := { session with
    stopped := true, stream := none, commands := [], replies := session.replies ++ refused }
  (stopped, if session.closed then state else (service.unwatch state).1)

def onCommand (service : DocumentService Service) (session : DocumentSession)
    (command : DocumentCommand) (state : Service) : DocumentSession × Service :=
  match command with
  | .listen listener => ({ session with document := session.document.listen listener }, state)
  | .close => leave service session state
  | .edit operation ticket =>
      if session.closed then
        (session.reply ticket (.refused (.closed session.document.id)), state)
      else match session.document.edit operation with
        | .error error => (session.reply ticket (.refused (.operation error)), state)
        | .ok document => flush service ({ session with document }.reply ticket .done) state

/-- Queues a command. -/
def post (session : DocumentSession) (command : DocumentCommand) : DocumentSession :=
  { session with commands := session.commands ++ [command] }

end DocumentSession

end Coauthor
