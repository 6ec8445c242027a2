import Coauthor.Session.Document

/-!
# Rehearsals

A document session against a script instead of a server.  Each call to the server
takes the next answer from the script, and succeeds when the script has none left;
every call is recorded.  A successful watch opens a new stream, into which events can
be put by hand.
-/

namespace Coauthor

/-- A call that a session made to the server. -/
inductive RehearsedCall where
  | watch (since : Option Nat)
  | send (message : OperationMessage)
  | unwatch
  deriving DecidableEq, Repr, Inhabited

structure Script where
  watches : List (Except RemoteError Welcome)
  sends : List (Except RemoteError Unit)
  unwatches : List (Except RemoteError Unit)
  /-- The calls made since they were last taken, oldest first. -/
  calls : List RehearsedCall
  /-- Every stream is a topic of its own. -/
  streams : Subscriptions Nat DocumentEvent
  deriving Inhabited

namespace Script

def record (script : Script) (call : RehearsedCall) : Script :=
  { script with calls := script.calls ++ [call] }

/-- Opens a new stream. -/
def openStream (script : Script) : Script × SubscriptionId :=
  let (streams, id) := script.streams.subscribe script.streams.next ""
  ({ script with streams }, id)

def watch (script : Script) (since : Option Nat) :
    Script × Except RemoteError (Welcome × SubscriptionId) :=
  let script := script.record (.watch since)
  let answer := script.watches.headD (.ok { revision := 0, content := [], missed := [] })
  let script := { script with watches := script.watches.tail }
  match answer with
  | .error error => (script, .error error)
  | .ok welcome =>
      let (script, id) := script.openStream
      (script, .ok (welcome, id))

def send (script : Script) (message : OperationMessage) : Script × Except RemoteError Unit :=
  let script := script.record (.send message)
  ({ script with sends := script.sends.tail }, script.sends.headD (.ok ()))

def unwatch (script : Script) : Script × Except RemoteError Unit :=
  let script := script.record .unwatch
  ({ script with unwatches := script.unwatches.tail }, script.unwatches.headD (.ok ()))

def service : DocumentService Script := { watch, send, unwatch }

/-- The stream opened last. -/
def newest (script : Script) : SubscriptionId := script.streams.next - 1

/-- The newest stream has not been ended. -/
def isOpen (script : Script) : Bool :=
  (script.streams.table.get? script.newest).any (·.active)

def takeCalls (script : Script) : Script × List RehearsedCall :=
  ({ script with calls := [] }, script.calls)

end Script

structure Rehearsal where
  connection : Connection
  script : Script
  session : DocumentSession
  deriving Inhabited

namespace Rehearsal

/-- Opens a document against a script. -/
def start (script : Script) (connection : Connection) (document : DocumentId)
    (client : ClientId) : Except RemoteError Rehearsal :=
  match DocumentSession.openSession Script.service script document client connection with
  | (_, .error error) => .error error
  | (script, .ok session) => .ok { connection, script, session }

def work (rehearsal : Rehearsal)
    (input : DocumentSession → Script → DocumentSession × Script) : Rehearsal :=
  let (session, script) := input rehearsal.session rehearsal.script
  { rehearsal with session, script }

/-- Lets the session take its next input; `none` if it has nothing to do. -/
def step? (rehearsal : Rehearsal) : Option Rehearsal :=
  let { connection, script, session } := rehearsal
  if session.stopped then none
  else if session.seen < connection.transitions then
    some (rehearsal.work fun session script =>
      session.onConnection Script.service connection script)
  else match session.stream.filter script.streams.hasNews, session.commands with
    | some stream, _ =>
        let (streams, front) := script.streams.take stream
        let rehearsal := { rehearsal with script := { script with streams } }
        match front with
        | .item event => some (rehearsal.work fun session script =>
            session.onEvent Script.service event script)
        | _ => some { rehearsal with session := session.onEventsEnded }
    | none, command :: commands =>
        some ({ rehearsal with session := { session with commands } }.work fun session script =>
          session.onCommand Script.service command script)
    | none, [] => none

/-- Lets the session take its inputs, at most so many. -/
def run : Nat → Rehearsal → Rehearsal
  | 0, rehearsal => rehearsal
  | limit + 1, rehearsal => (rehearsal.step?).elim rehearsal (run limit)

/-- How many inputs can be waiting: one transition, the events with the end of the
stream, and the commands. -/
def backlog (rehearsal : Rehearsal) : Nat :=
  let streams := rehearsal.script.streams.table.values
  streams.foldl (fun total stream => total + stream.items.length + 1)
    (1 + rehearsal.session.commands.length)

/-- Lets the session take every input that waits.  An input may open a stream, which
holds nothing yet. -/
def settle (rehearsal : Rehearsal) : Rehearsal := run rehearsal.backlog rehearsal

/-- Puts an event into the newest stream, if the session still follows it. -/
def sendEvent (rehearsal : Rehearsal) (event : DocumentEvent) : Rehearsal × Bool :=
  let script := rehearsal.script
  if rehearsal.session.stream = some script.newest ∧ script.isOpen then
    let streams := script.streams.send script.newest event
    ({ rehearsal with script := { script with streams } }, true)
  else (rehearsal, false)

/-- Ends the newest stream. -/
def endEvents (rehearsal : Rehearsal) : Rehearsal :=
  let script := rehearsal.script
  { rehearsal with script := { script with streams := script.streams.close script.newest } }

/-- Hands a command to the session; `false` if it has stopped. -/
def post (rehearsal : Rehearsal) (command : DocumentCommand) : Rehearsal × Bool :=
  if rehearsal.session.stopped then (rehearsal, false)
  else ({ rehearsal with session := rehearsal.session.post command }, true)

/-- An edit, and the answer to it. -/
def edit (rehearsal : Rehearsal) (operation : Operation) : Rehearsal × Reply :=
  match rehearsal.post (.edit operation 0) with
  | (rehearsal, false) => (rehearsal, .refused .stopped)
  | (rehearsal, true) =>
      let rehearsal := rehearsal.settle
      let replies := rehearsal.session.replies
      ({ rehearsal with session := { rehearsal.session with replies := [] } },
        (replies.head?).elim (.refused .stopped) (·.2))

end Rehearsal

end Coauthor
