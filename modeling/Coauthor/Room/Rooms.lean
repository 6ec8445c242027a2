import Coauthor.Remote
import Coauthor.Room.Event
import Coauthor.Subscription
import Coauthor.Text.History

/-!
# Document rooms

The server's side of shared texts.  A room holds the history of one document; its
watchers hear of every operation, the sender of an operation by an acknowledgement.
A room without activity for long enough is closed, and its watchers are told so.
Times are in milliseconds.
-/

namespace Coauthor

structure Room where
  history : History
  lastActivity : Nat
  deriving Repr, Inhabited

/-- What a client is told when it starts to watch a document. -/
structure Welcome where
  revision : Nat
  content : Text
  /-- The operations behind the revision that the client has; none on a first visit. -/
  missed : List AppliedOperation
  deriving DecidableEq, Repr, Inhabited

structure Rooms where
  rooms : Table DocumentId Room
  watchers : Subscriptions DocumentId DocumentEvent
  inactivityTimeout : Nat
  deriving Repr

namespace Room

def start (text : Text) (now : Nat) : Room := { history := .start text, lastActivity := now }

/-- A room without activity for the timeout is idle. -/
def isIdle (room : Room) (timeout now : Nat) : Bool := timeout ≤ now - room.lastActivity

end Room

namespace Rooms

def start (inactivityTimeout : Nat) : Rooms :=
  { rooms := ∅, watchers := ∅, inactivityTimeout }

instance : Inhabited Rooms := ⟨start 0⟩

def room (rooms : Rooms) (id : DocumentId) : Except RemoteError Room :=
  match rooms.rooms.get? id with
  | some room => .ok room
  | none => .error (.notFound id)

def setRoom (rooms : Rooms) (id : DocumentId) (room : Room) : Rooms :=
  { rooms with rooms := rooms.rooms.insert id room }

/-- Opens a room with a text, if there is none. -/
def openRoom (rooms : Rooms) (id : DocumentId) (text : Text) (now : Nat) : Rooms :=
  if rooms.rooms.contains id then rooms else rooms.setRoom id (.start text now)

def refuse {Value : Type} (result : Except OperationError Value) : Except RemoteError Value :=
  result.mapError fun error => .rejected error.message

/-- The room that a client asks for, and what it missed there.  A first visit opens
the room; a client that returns needs the room it knows. -/
def visit (rooms : Rooms) (id : DocumentId) (since : Option Nat) (now : Nat) :
    Except RemoteError (Room × List AppliedOperation) :=
  match since with
  | none => .ok ((rooms.rooms.get? id).getD (.start [] now), [])
  | some revision => do
      let room ← rooms.room id
      return (room, ← refuse (room.history.since revision))

/-- Lets a client watch a document, behind a revision that it already has. -/
def watch (rooms : Rooms) (id : DocumentId) (client : ClientId) (since : Option Nat) (now : Nat) :
    Except RemoteError (Rooms × Welcome × SubscriptionId) := do
  let (room, missed) ← rooms.visit id since now
  let (watchers, stream) := rooms.watchers.subscribe id client
  return ({ rooms.setRoom id { room with lastActivity := now } with watchers },
    { revision := room.history.revision, content := room.history.content, missed }, stream)

/-- Tells the watchers of a document what became of an operation of `sender`. -/
def announce (watchers : Subscriptions DocumentId DocumentEvent) (id : DocumentId)
    (sender : ClientId) : Received → Subscriptions DocumentId DocumentEvent
  | .applied applied =>
      (watchers.sendTo id (· = sender) (.ack applied.seq applied.revision)).sendTo id
        (· ≠ sender) (.operation applied)
  | .duplicate seq revision => watchers.sendTo id (· = sender) (.ack seq revision)

/-- Takes an operation.  A refused one counts as activity. -/
def receive (rooms : Rooms) (id : DocumentId) (message : OperationMessage) (now : Nat) :
    Rooms × Except RemoteError Unit :=
  match rooms.room id with
  | .error error => (rooms, .error error)
  | .ok room =>
      let room := { room with lastActivity := now }
      match refuse (room.history.receive message) with
      | .error error => (rooms.setRoom id room, .error error)
      | .ok (history, received) =>
          ({ rooms.setRoom id { room with history } with
              watchers := announce rooms.watchers id message.clientId received }, .ok ())

def unwatch (rooms : Rooms) (id : DocumentId) (client : ClientId) : Rooms :=
  { rooms with watchers := rooms.watchers.unsubscribe id client }

/-- Forgets what a client watches. -/
def detach (rooms : Rooms) (client : ClientId) : Rooms :=
  { rooms with watchers := rooms.watchers.detach client }

/-- The rooms that are idle, in the order of their ids. -/
def idle (rooms : Rooms) (now : Nat) : List DocumentId :=
  (rooms.rooms.filter fun _ room => room.isIdle rooms.inactivityTimeout now).keys.mergeSort
    fun a b => decide (a ≤ b)

/-- Closes a room and tells its watchers. -/
def close (rooms : Rooms) (id : DocumentId) : Rooms :=
  { rooms with
    rooms := rooms.rooms.erase id
    watchers := (rooms.watchers.send id .closed).close id }

/-- Closes the idle rooms. -/
def reap (rooms : Rooms) (now : Nat) : Rooms × List DocumentId :=
  let idle := rooms.idle now
  (idle.foldl close rooms, idle)

end Rooms

end Coauthor
