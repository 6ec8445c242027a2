import Coauthor.Json.Record

/-!
# The connection to the server

A connection starts down.  Its first connect reports `connected` and every later
one `reconnected`, which is what makes a client rejoin.
-/

namespace Coauthor

inductive ConnectionState where
  | connected
  | disconnected
  | reconnecting
  | reconnected
  | error
  deriving DecidableEq, Repr, Inhabited

namespace ConnectionState

/-- Requests can be sent. -/
def isConnected : ConnectionState → Bool
  | connected | reconnected => true
  | disconnected | reconnecting | error => false

def text : ConnectionState → String
  | connected => "CONNECTED"
  | disconnected => "DISCONNECTED"
  | reconnecting => "RECONNECTING"
  | reconnected => "RECONNECTED"
  | error => "ERROR"

def ofText? : String → Option ConnectionState
  | "CONNECTED" => some connected
  | "DISCONNECTED" => some disconnected
  | "RECONNECTING" => some reconnecting
  | "RECONNECTED" => some reconnected
  | "ERROR" => some error
  | _ => none

theorem ofText?_text (state : ConnectionState) : ofText? state.text = some state := by
  cases state <;> rfl

def toJson (state : ConnectionState) : Json := .string state.text

def ofJson? (value : Json) : Option ConnectionState := value.word? >>= ofText?

end ConnectionState

structure Connection where
  state : ConnectionState
  everConnected : Bool
  /-- How many transitions there were, those into the same state included. -/
  transitions : Nat
  deriving DecidableEq, Repr, Inhabited

namespace Connection

def start : Connection := { state := .disconnected, everConnected := false, transitions := 0 }

def isConnected (connection : Connection) : Bool := connection.state.isConnected

def enter (connection : Connection) (state : ConnectionState) : Connection :=
  { connection with state, transitions := connection.transitions + 1 }

/-- The state that the next connect leads to. -/
def next (connection : Connection) : ConnectionState :=
  if connection.everConnected then .reconnected else .connected

def connect (connection : Connection) : Connection :=
  { connection.enter connection.next with everConnected := true }

def reconnecting (connection : Connection) : Connection := connection.enter .reconnecting

def disconnect (connection : Connection) : Connection := connection.enter .disconnected

def fail (connection : Connection) : Connection := connection.enter .error

@[simp]
theorem isConnected_connect (connection : Connection) : connection.connect.isConnected = true := by
  cases connection with
  | mk state everConnected transitions => cases everConnected <;> rfl

end Connection

end Coauthor
