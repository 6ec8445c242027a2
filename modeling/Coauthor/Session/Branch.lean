import Coauthor.Branch.Coordinator
import Coauthor.Link
import Coauthor.Model
import Coauthor.Session.Broadcast
import Coauthor.Session.Error
import Coauthor.Settings

/-!
# Branch sessions

A session drives one coordinator: it carries the coordinator's requests out, hands
announcements and transitions of the connection to it, and tells whoever waits what
became of a commit.  At most one request is under way, as the coordinator has it.
-/

namespace Coauthor

inductive BranchCommand where
  /-- Queue a commit. -/
  | commit (data : CommitData) (ticket : Ticket)
  /-- Queue a commit and tell what finally became of it. -/
  | makeCommit (data : CommitData) (ticket : Ticket)
  | resolve (resolution : ForkResolution) (ticket : Ticket)
  /-- Tell the head once no commit is queued. -/
  | whenSynced (ticket : Ticket)
  | retry
  | close
  deriving Repr, Inhabited

namespace BranchCommand

/-- Where the answer to a command is waited for. -/
def ticket? : BranchCommand → Option Ticket
  | commit _ ticket | makeCommit _ ticket | resolve _ ticket | whenSynced ticket => some ticket
  | retry | close => none

end BranchCommand

structure BranchSession where
  coordinator : Coordinator
  /-- The request under way. -/
  inFlight : Option Request
  /-- The stream of announced heads, while the session follows one. -/
  stream : Option SubscriptionId
  stopped : Bool
  /-- How many transitions of the connection have been taken in. -/
  seen : Nat
  /-- Commands that wait, oldest first. -/
  commands : List BranchCommand
  /-- Who waits for the outcome of a commit. -/
  commitWaiters : Table CommitHash Ticket
  /-- Who waits for an empty queue. -/
  workerWaiters : Table Nat Ticket
  nextWorker : Nat
  events : Broadcast SyncEvent
  /-- Answers to be handed out. -/
  replies : List (Ticket × Reply)
  deriving Repr, Inhabited

namespace BranchSession

/-- Follows a branch from a head that the local model has. -/
def start (project : ProjectId) (branch : BranchName) (head : CommitHash)
    (stream : SubscriptionId) (connection : Connection) (settings : Settings) : BranchSession :=
  let coordinator := Coordinator.start project branch head
  { coordinator :=
      if connection.isConnected then coordinator
      else (coordinator.connectionChanged connection.state).1
    inFlight := none
    stream := some stream
    stopped := false
    seen := connection.transitions
    commands := []
    commitWaiters := ∅
    workerWaiters := ∅
    nextWorker := 0
    events := .start (max settings.commandCapacity 16)
    replies := [] }

/-- Opens a branch at the head that the server has. -/
def openSession (line : Line) (project : ProjectId) (branch : BranchName) (settings : Settings) :
    Line × Except SessionError BranchSession :=
  match line.branchHead project branch with
  | (line, .error error) => (line, .error (.remote error))
  | (line, .ok none) => (line, .error (.sync (.branchMissing branch)))
  | (line, .ok (some head)) =>
      match line.watchBranch project branch with
      | (line, .error error) => (line, .error (.remote error))
      | (line, .ok stream) =>
          (line, .ok (start project branch head stream line.link.connection settings))

def project (session : BranchSession) : ProjectId := session.coordinator.branch.project

def branch (session : BranchSession) : BranchName := session.coordinator.branch.name

def reply (session : BranchSession) (ticket : Ticket) (reply : Reply) : BranchSession :=
  { session with replies := session.replies ++ [(ticket, reply)] }

/-! ## Telling what happened -/

def releaseWorker (head : CommitHash) (session : BranchSession) (worker : Nat) : BranchSession :=
  match session.workerWaiters.get? worker with
  | none => session
  | some ticket =>
      { session with workerWaiters := session.workerWaiters.erase worker }.reply ticket (.head head)

/-- Answers those who waited for an event. -/
def answerWaiters (session : BranchSession) : SyncEvent → BranchSession
  | .settled hash status =>
      match session.commitWaiters.get? hash with
      | none => session
      | some ticket =>
          { session with commitWaiters := session.commitWaiters.erase hash }.reply ticket
            (.status status)
  | .workersReleased requests head => requests.foldl (releaseWorker head) session
  | _ => session

def publishEvent (session : BranchSession) (event : SyncEvent) : BranchSession :=
  let session := session.answerWaiters event
  { session with events := session.events.send event }

def publish (session : BranchSession) : BranchSession :=
  let (coordinator, events) := session.coordinator.takeEvents
  events.foldl publishEvent { session with coordinator }

/-- Takes a move of the coordinator over: its request gets under way, and its events
are told. -/
def drive (session : BranchSession) (move : Coordinator.Move) : BranchSession :=
  { session with coordinator := move.1, inFlight := move.2 <|> session.inFlight }.publish

/-! ## Carrying requests out -/

/-- What a request leads to. -/
structure Outcome where
  line : Line
  model : Model
  response : Response
  /-- A new stream of announced heads. -/
  stream : Option SubscriptionId

def perform (project : ProjectId) (branch : BranchName) (request : Request) (line : Line)
    (model : Model) : Outcome :=
  let answer {Value : Type} (answer : Line.Answer Value)
      (response : Except RemoteError Value → Response) : Outcome :=
    { line := answer.1, model, response := response answer.2, stream := none }
  let deliver (line : Line) (data : CommitData) (reason : LoadReason) : Outcome :=
    let (model, result) := model.load data reason
    { line, model, response := .delivered result, stream := none }
  match request with
  | .push data => answer (line.makeCommit data) .pushed
  | .deliver _ (some data) reason => deliver line data reason
  | .deliver hash none reason =>
      match line.load project hash with
      | (line, .ok data) => deliver line data reason
      | (line, .error error) =>
          { line, model, response := .delivered (.error (.remote error)), stream := none }
  | .subscribe =>
      match line.watchBranch project branch with
      | (line, .ok stream) =>
          { line, model, response := .subscribed (.ok ()), stream := some stream }
      | (line, .error error) =>
          { line, model, response := .subscribed (.error error), stream := none }
  | .fetchHead => answer (line.branchHead project branch) .head
  | .findAncestor queued head => answer (line.commonAncestor project queued head) .ancestor
  | .store data => answer (line.makeCommit data) .stored
  | .createBranch name hash => answer (line.createBranch project name hash) .branchCreated
  | .setHead old new => answer (line.setHead project branch old new) .headSet

/-! ## Inputs -/

def onConnection (session : BranchSession) (connection : Connection) : BranchSession :=
  { session with seen := connection.transitions }.drive
    (session.coordinator.connectionChanged connection.state)

def onUpdate (session : BranchSession) (data : CommitData) : BranchSession :=
  session.drive (session.coordinator.remoteUpdate data)

/-- The stream of announced heads has ended. -/
def onUpdatesEnded (session : BranchSession) : BranchSession := { session with stream := none }

/-- The request under way was answered.  A fault of the transport may be seen here
before the connection was looked at; the coordinator hears of it first. -/
def onAnswer (session : BranchSession) (connection : Connection) (response : Response)
    (stream : Option SubscriptionId) : BranchSession :=
  let session := { session with inFlight := none }
  let session :=
    if connection.isConnected = session.coordinator.connected then session
    else session.drive (session.coordinator.connectionChanged connection.state)
  let session := { session with stream := stream <|> session.stream }
  session.drive (session.coordinator.handle response)

/-- Everyone who still waits is told that the session has stopped. -/
def stop (session : BranchSession) : BranchSession :=
  let waiting := session.commitWaiters.values ++ session.workerWaiters.values ++
    session.commands.filterMap BranchCommand.ticket?
  { session with
    stopped := true, inFlight := none, stream := none, commands := [], commitWaiters := ∅
    workerWaiters := ∅
    replies := session.replies ++ waiting.map (·, .refused .stopped) }

/-- Lets a ticket wait for the outcome of a commit.  One that waited for the same
commit before is given up. -/
def awaitCommit (session : BranchSession) (hash : CommitHash) (ticket : Ticket) : BranchSession :=
  let session := match session.commitWaiters.get? hash with
    | none => session
    | some earlier => session.reply earlier (.refused .stopped)
  { session with commitWaiters := session.commitWaiters.insert hash ticket }

def onCommand (session : BranchSession) : BranchCommand → BranchSession
  | .commit data ticket =>
      match session.coordinator.commitLocally data with
      | .ok move => (session.reply ticket .done).drive move
      | .error error => session.reply ticket (.refused (.sync error))
  | .makeCommit data ticket =>
      match session.coordinator.commitLocally data with
      | .ok move => (session.awaitCommit data.hash ticket).drive move
      | .error _ => session.reply ticket (.status .canceled)
  | .resolve resolution ticket =>
      match session.coordinator.resolveFork resolution with
      | .ok move => (session.reply ticket .done).drive move
      | .error error => session.reply ticket (.refused (.sync error))
  | .whenSynced ticket =>
      let worker := session.nextWorker
      { session with
        workerWaiters := session.workerWaiters.insert worker ticket
        nextWorker := worker + 1 }.drive (session.coordinator.queueWorker worker, none)
  | .retry => session.drive session.coordinator.retry
  | .close => session.stop

/-- Queues a command. -/
def post (session : BranchSession) (command : BranchCommand) : BranchSession :=
  { session with commands := session.commands ++ [command] }

/-- Somebody waits for an answer of the session. -/
def isAwaited (session : BranchSession) : Bool :=
  0 < session.commitWaiters.size || 0 < session.workerWaiters.size

end BranchSession

end Coauthor
