import Coauthor.Session.Branch
import Coauthor.Session.Document

/-!
# The site

A server, its clients and the sessions they have opened.  Each session is a task that
takes one input at a time; tasks that have something to do wait in a queue and are
served in order, a task until it has nothing left to do.  A request and the handling
of its answer are one input, and go before every other.
-/

namespace Coauthor

abbrev SessionId := Nat

structure Client where
  link : Link
  model : Model
  /-- The session of the branch opened last. -/
  branch : Option SessionId
  /-- The session of the document opened last. -/
  document : Option SessionId
  /-- What the listeners heard, oldest first. -/
  changes : List Text
  deriving Repr, Inhabited

/-- A session and the client that it works for. -/
structure Hosted (Session : Type) where
  owner : ClientId
  session : Session
  deriving Repr, Inhabited

/-- What can be served. -/
inductive Task where
  | reaper
  | branch (id : SessionId)
  | document (id : SessionId)
  /-- A call that was made in the background and has not reached its session. -/
  | call (ticket : Ticket)
  deriving DecidableEq, Repr, Inhabited

/-- A call in the background, to the session that the client had opened. -/
structure Call where
  session : Option SessionId
  command : BranchCommand
  deriving Repr, Inhabited

/-- Closes idle rooms at its start and whenever a multiple of the interval has passed. -/
structure Reaper where
  started : Nat
  due : Nat
  deriving DecidableEq, Repr, Inhabited

structure Site where
  settings : Settings
  server : Server
  clients : Table ClientId Client
  branches : Table SessionId (Hosted BranchSession)
  documents : Table SessionId (Hosted DocumentSession)
  calls : Table Ticket Call
  /-- Answers that have not been taken. -/
  replies : Table Ticket Reply
  reaper : Option Reaper
  /-- The tasks to be served, in order. -/
  ready : List Task
  nextId : Nat
  deriving Inhabited

namespace Site

def start (merger : Merger) (settings : Settings) (names : List ClientId) : Site :=
  { settings
    server := .start merger settings.inactivityTimeout
    clients := .ofList (names.map fun name =>
      (name, { (default : Client) with link := .start name }))
    branches := ∅
    documents := ∅
    calls := ∅
    replies := ∅
    reaper := none
    ready := []
    nextId := 0 }

def client (site : Site) (name : ClientId) : Client := (site.clients.get? name).getD default

def setClient (site : Site) (name : ClientId) (client : Client) : Site :=
  { site with clients := site.clients.insert name client }

/-- The line over which a client calls. -/
def line (site : Site) (name : ClientId) : Line :=
  { server := site.server, link := (site.client name).link }

def setLine (site : Site) (name : ClientId) (line : Line) : Site :=
  { site with server := line.server }.setClient name
    { site.client name with link := line.link }

def setBranch (site : Site) (id : SessionId) (hosted : Hosted BranchSession) : Site :=
  { site with branches := site.branches.insert id hosted }

def setDocument (site : Site) (id : SessionId) (hosted : Hosted DocumentSession) : Site :=
  { site with documents := site.documents.insert id hosted }

/-! ## Who has something to do -/

/-- Nobody can send the session a command any more: its client has let it go, and no
call is on its way to it or waits for its answer. -/
def isOrphan (site : Site) (client : Client) (id : SessionId) (session : BranchSession) : Bool :=
  client.branch ≠ some id && !session.isAwaited &&
    site.calls.values.all fun call => call.session ≠ some id

def branchHasWork (site : Site) (id : SessionId) (hosted : Hosted BranchSession) : Bool :=
  let session := hosted.session
  let client := site.client hosted.owner
  !session.stopped &&
    (session.inFlight.isSome || session.seen < client.link.connection.transitions ||
      session.stream.any site.server.store.watchers.hasNews || !session.commands.isEmpty ||
      site.isOrphan client id session)

def documentHasWork (site : Site) (id : SessionId) (hosted : Hosted DocumentSession) : Bool :=
  let session := hosted.session
  let client := site.client hosted.owner
  !session.stopped &&
    (session.seen < client.link.connection.transitions ||
      session.stream.any site.server.rooms.watchers.hasNews || !session.commands.isEmpty ||
      client.document ≠ some id)

def hasWork (site : Site) : Task → Bool
  | .reaper => site.reaper.any fun reaper => reaper.due ≤ site.server.now
  | .branch id => (site.branches.get? id).any (site.branchHasWork id)
  | .document id => (site.documents.get? id).any (site.documentHasWork id)
  | .call ticket => site.calls.contains ticket

def tasks (site : Site) : List Task :=
  .reaper :: site.branches.keys.map .branch ++ site.documents.keys.map .document ++
    site.calls.keys.map .call

/-- Queues the tasks that have got something to do. -/
def wake (site : Site) : Site :=
  { site with ready := site.ready ++
      site.tasks.filter fun task => site.hasWork task && task ∉ site.ready }

/-! ## Serving a task -/

/-- Files the answers that a session hands out. -/
def file (site : Site) (replies : List (Ticket × Reply)) : Site :=
  { site with replies := site.replies.extend ⟨replies⟩ }

def putBranch (site : Site) (id : SessionId) (owner : ClientId) (session : BranchSession) :
    Site :=
  (site.setBranch id { owner, session := { session with replies := [] } }).file session.replies

/-- Keeps what the listeners of a document heard. -/
def hear (site : Site) (name : ClientId) (changes : List (String × Text)) : Site :=
  let client := site.client name
  site.setClient name { client with changes := client.changes ++ changes.map (·.2) }

def putDocument (site : Site) (id : SessionId) (owner : ClientId)
    (session : DocumentSession) : Site :=
  let (document, changes) := session.document.takeChanges
  (site.setDocument id { owner, session := { session with document, replies := [] } }).file
    session.replies |>.hear owner changes

/-- Carries the request of a branch session out and hands the answer back. -/
def performBranch (site : Site) (id : SessionId) (owner : ClientId) (session : BranchSession)
    (request : Request) : Site :=
  let outcome := BranchSession.perform session.project session.branch request (site.line owner)
    (site.client owner).model
  let site := site.setLine owner outcome.line
  let site := site.setClient owner { site.client owner with model := outcome.model }
  site.putBranch id owner
    (session.onAnswer outcome.line.link.connection outcome.response outcome.stream)

/-- Hands the next announced head to a branch session. -/
def announceBranch (site : Site) (id : SessionId) (owner : ClientId) (session : BranchSession)
    (stream : SubscriptionId) : Site :=
  let (watchers, front) := site.server.store.watchers.take stream
  let site := { site with
    server := { site.server with store := { site.server.store with watchers } } }
  match front with
  | .item data => site.putBranch id owner (session.onUpdate data)
  | .ended => site.putBranch id owner session.onUpdatesEnded
  | .pending => site

def serveBranch (site : Site) (id : SessionId) (hosted : Hosted BranchSession) : Site :=
  let { owner, session } := hosted
  let connection := (site.client owner).link.connection
  match session.inFlight, session.stream.filter site.server.store.watchers.hasNews,
      session.commands with
  | some request, _, _ => site.performBranch id owner session request
  | none, stream, commands =>
      if session.seen < connection.transitions then
        site.putBranch id owner (session.onConnection connection)
      else match stream, commands with
        | some stream, _ => site.announceBranch id owner session stream
        | none, command :: commands =>
            site.putBranch id owner ({ session with commands }.onCommand command)
        | none, [] => site.putBranch id owner session.stop

/-- The room of a document, as its session reaches it. -/
def documentService (id : DocumentId) (client : ClientId) : DocumentService Line :=
  { watch := fun line since => line.watchDocument id client since
    send := fun line message => line.sendOperation id message
    unwatch := fun line => line.unwatchDocument id client }

/-- Lets a document session work over the line of its client. -/
def withService (site : Site) (id : SessionId) (owner : ClientId) (session : DocumentSession)
    (work : DocumentService Line → DocumentSession → Line → DocumentSession × Line) : Site :=
  let service := documentService session.document.id session.document.clientId
  let (session, line) := work service session (site.line owner)
  (site.setLine owner line).putDocument id owner session

/-- Hands the next event of the room to a document session. -/
def announceDocument (site : Site) (id : SessionId) (owner : ClientId)
    (session : DocumentSession) (stream : SubscriptionId) : Site :=
  let (watchers, front) := site.server.rooms.watchers.take stream
  let site := { site with
    server := { site.server with rooms := { site.server.rooms with watchers } } }
  match front with
  | .item event => site.withService id owner session fun service session line =>
      session.onEvent service event line
  | .ended => site.putDocument id owner session.onEventsEnded
  | .pending => site

def serveDocument (site : Site) (id : SessionId) (hosted : Hosted DocumentSession) : Site :=
  let { owner, session } := hosted
  let connection := (site.client owner).link.connection
  if session.seen < connection.transitions then
    site.withService id owner session fun service session line =>
      session.onConnection service connection line
  else match session.stream.filter site.server.rooms.watchers.hasNews, session.commands with
    | some stream, _ => site.announceDocument id owner session stream
    | none, command :: commands =>
        site.withService id owner { session with commands } fun service session line =>
          session.onCommand service command line
    | none, [] => site.withService id owner session fun service session line =>
        session.leave service line

/-- Brings a call to its session, which may have stopped. -/
def serveCall (site : Site) (ticket : Ticket) (call : Call) : Site :=
  let site := { site with calls := site.calls.erase ticket }
  let refused := site.file [(ticket, .refused .stopped)]
  match call.session with
  | none => refused
  | some id =>
      match site.branches.get? id with
      | none => refused
      | some hosted =>
          if hosted.session.stopped then refused
          else site.setBranch id { hosted with session := hosted.session.post call.command }

/-- Closes idle rooms, and is due again at the next multiple of the interval. -/
def serveReaper (site : Site) (reaper : Reaper) : Site :=
  let interval := site.settings.reaperInterval
  let passed := (site.server.now - reaper.started) / interval
  { site with
    server := site.server.reap.1
    reaper := some { reaper with due := reaper.started + (passed + 1) * interval } }

def serve (site : Site) : Task → Site
  | .reaper => site.reaper.elim site site.serveReaper
  | .branch id => (site.branches.get? id).elim site (site.serveBranch id)
  | .document id => (site.documents.get? id).elim site (site.serveDocument id)
  | .call ticket => (site.calls.get? ticket).elim site (site.serveCall ticket)

/-- Serves the first task that waits, and lets it go when it has nothing left to do. -/
def step (site : Site) : Site :=
  match site.ready with
  | [] => site
  | task :: rest =>
      let site := if site.hasWork task then site.serve task else site
      (if site.hasWork task then site else { site with ready := rest }).wake

/-- Serves tasks until none waits, at most so many times. -/
def run : Nat → Site → Site
  | 0, site => site
  | limit + 1, site => if site.ready.isEmpty then site else run limit site.step

/-- Far more steps than a call gives rise to. -/
def patience : Nat := 1000000

/-- Lets everyone go on until nobody has anything to do. -/
def settle (site : Site) : Site := run patience site.wake

end Site

end Coauthor
