import Coauthor.Connection
import Coauthor.Server

/-!
# The link of a client to the server

Every call of a client goes over its link, and fails while the connection is down.  A
link can lose the next pushed commit or the next text operation in two ways: the
request never arrives, or it is carried out and the answer is lost.  Either way the
connection drops, and the server forgets what the client listened to.
-/

namespace Coauthor

inductive Fault where
  | loseRequest
  | loseResponse
  deriving DecidableEq, Repr, Inhabited

/-- The faults that wait for the next request of a kind. -/
structure FaultSwitch where
  loseRequest : Bool
  loseResponse : Bool
  deriving DecidableEq, Repr

namespace FaultSwitch

def off : FaultSwitch := { loseRequest := false, loseResponse := false }

instance : Inhabited FaultSwitch := ⟨off⟩

def arm (faults : FaultSwitch) : Fault → FaultSwitch
  | .loseRequest => { faults with loseRequest := true }
  | .loseResponse => { faults with loseResponse := true }

/-- Takes the fault that strikes next; a lost request strikes first. -/
def take (faults : FaultSwitch) : FaultSwitch × Option Fault :=
  if faults.loseRequest then ({ faults with loseRequest := false }, some .loseRequest)
  else if faults.loseResponse then ({ faults with loseResponse := false }, some .loseResponse)
  else (faults, none)

end FaultSwitch

structure Link where
  client : ClientId
  connection : Connection
  commitFaults : FaultSwitch
  operationFaults : FaultSwitch
  deriving Repr, Inhabited

namespace Link

/-- A link whose connection is up. -/
def start (client : ClientId) : Link :=
  { client, connection := Connection.start.connect, commitFaults := .off, operationFaults := .off }

def reconnect (link : Link) : Link :=
  { link with connection := link.connection.reconnecting.connect }

end Link

/-- A link and the server behind it. -/
structure Line where
  server : Server
  link : Link
  deriving Inhabited

namespace Line

variable {Value : Type}

/-- What a call leaves behind and what it answers. -/
abbrev Answer (Value : Type) := Line × Except RemoteError Value

def disconnect (line : Line) : Line :=
  { server := line.server.detach line.link.client
    link := { line.link with connection := line.link.connection.disconnect } }

/-- Carries a request out on the server. -/
def carry (line : Line) (request : Server → Server × Except RemoteError Value) : Answer Value :=
  let (server, result) := request line.server
  ({ line with server }, result)

/-- Sends a request, if the connection is up. -/
def ask (line : Line) (request : Server → Server × Except RemoteError Value) : Answer Value :=
  if line.link.connection.isConnected then line.carry request else (line, .error .disconnected)

/-- Sends a request that a fault may strike.  The connection drops before a request
whose answer is lost is carried out, so nothing that it causes reaches the client. -/
def askUnder (fault : Option Fault) (line : Line)
    (request : Server → Server × Except RemoteError Value) : Answer Value :=
  match fault with
  | none => line.carry request
  | some .loseRequest => (line.disconnect, .error .disconnected)
  | some .loseResponse => ((line.disconnect.carry request).1, .error .disconnected)

/-- A request that only reads. -/
def read (line : Line) (request : Server → Except RemoteError Value) : Answer Value :=
  line.ask fun server => (server, request server)

/-- A request that changes the store when it succeeds. -/
def change (line : Line) (request : Store → Except RemoteError (Store × Value)) :
    Answer Value :=
  line.ask fun server =>
    match request server.store with
    | .ok (store, value) => ({ server with store }, .ok value)
    | .error error => (server, .error error)

/-! ## Commits and branches -/

def makeCommit (line : Line) (data : CommitData) : Answer CommitResponse :=
  if line.link.connection.isConnected then
    let (commitFaults, fault) := line.link.commitFaults.take
    askUnder fault { line with link := { line.link with commitFaults } } fun server =>
      let (store, result) := server.store.makeCommit data
      ({ server with store }, result)
  else (line, .error .disconnected)

def branchHead (line : Line) (project : ProjectId) (branch : BranchName) :
    Answer (Option CommitHash) :=
  line.read fun server => server.store.branchHead project branch

def commonAncestor (line : Line) (project : ProjectId) (a b : CommitHash) : Answer CommitHash :=
  line.read fun server => server.store.commonAncestor project a b

def load (line : Line) (project : ProjectId) (hash : CommitHash) : Answer CommitData :=
  line.read fun server => server.store.load project hash

def createBranch (line : Line) (project : ProjectId) (branch : BranchName) (hash : CommitHash) :
    Answer Unit :=
  line.change fun store => (store.createBranch project branch hash).map (·, ())

def setHead (line : Line) (project : ProjectId) (branch : BranchName) (old : Option CommitHash)
    (new : CommitHash) : Answer CommitResponse :=
  line.change fun store => store.setHead project branch old new

def watchBranch (line : Line) (project : ProjectId) (branch : BranchName) :
    Answer SubscriptionId :=
  line.change fun store => store.watch project branch line.link.client

/-! ## Documents -/

def watchDocument (line : Line) (document : DocumentId) (client : ClientId)
    (since : Option Nat) : Answer (Welcome × SubscriptionId) :=
  line.ask fun server =>
    match server.rooms.watch document client since server.now with
    | .ok (rooms, welcome) => ({ server with rooms }, .ok welcome)
    | .error error => (server, .error error)

def sendOperation (line : Line) (document : DocumentId) (message : OperationMessage) :
    Answer Unit :=
  if line.link.connection.isConnected then
    let (operationFaults, fault) := line.link.operationFaults.take
    askUnder fault { line with link := { line.link with operationFaults } } fun server =>
      let (rooms, result) := server.rooms.receive document message server.now
      ({ server with rooms }, result)
  else (line, .error .disconnected)

def unwatchDocument (line : Line) (document : DocumentId) (client : ClientId) : Answer Unit :=
  line.ask fun server => ({ server with rooms := server.rooms.unwatch document client }, .ok ())

end Line

end Coauthor
