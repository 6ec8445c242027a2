import Coauthor.Site.Site

/-!
# Calls to the site

What clients, and those who look after the server, can do.  A call that waits for an
answer lets everyone go on until the answer is there; other calls return at once.
-/

namespace Coauthor.Site

/-! ## The server -/

def createProject (site : Site) (project : ProjectId) (branch : BranchName)
    (root : CommitData) : Site :=
  let store := site.server.store.createProject project branch root
  { site with server := { site.server with store } }

def openRoom (site : Site) (id : DocumentId) (text : Text) : Site :=
  let rooms := site.server.rooms.openRoom id text site.server.now
  { site with server := { site.server with rooms } }

def advance (site : Site) (duration : Nat) : Site :=
  { site with server := { site.server with now := site.server.now + duration } }.wake

def reap (site : Site) : Site × List DocumentId :=
  let (server, closed) := site.server.reap
  ({ site with server }.wake, closed)

/-- Starts to close idle rooms from time to time, if an interval is set. -/
def startReaper (site : Site) : Site :=
  let now := site.server.now
  if site.settings.reaperInterval = 0 then { site with reaper := none }
  else { site with reaper := some { started := now, due := now } }.wake

def stopReaper (site : Site) : Site := { site with reaper := none }

/-! ## The link of a client -/

/-- Lets a client use its line. -/
def call {Value : Type} (site : Site) (name : ClientId) (request : Line → Line × Value) :
    Site × Value :=
  let (line, value) := request (site.line name)
  ((site.setLine name line).wake, value)

def changeLink (site : Site) (name : ClientId) (change : Link → Link) : Site :=
  let client := site.client name
  (site.setClient name { client with link := change client.link }).wake

def changeConnection (site : Site) (name : ClientId) (change : Connection → Connection) :
    Site :=
  site.changeLink name fun link => { link with connection := change link.connection }

def disconnect (site : Site) (name : ClientId) : Site :=
  (site.call name fun line => (line.disconnect, ())).1

def reconnect (site : Site) (name : ClientId) : Site :=
  site.changeLink name Link.reconnect

def changeModel (site : Site) (name : ClientId) (change : Model → Model) : Site :=
  let client := site.client name
  site.setClient name { client with model := change client.model }

/-! ## Opening sessions -/

/-- Opens a branch; the session of the one opened before is let go. -/
def openBranch (site : Site) (name : ClientId) (project : ProjectId) (branch : BranchName) :
    Site × Except SessionError Unit :=
  let (line, result) := BranchSession.openSession (site.line name) project branch site.settings
  let site := site.setLine name line
  match result with
  | .error error => (site.wake, .error error)
  | .ok session =>
      let id := site.nextId
      let site := { site with nextId := id + 1 }.setBranch id { owner := name, session }
      ((site.setClient name { site.client name with branch := some id }).wake, .ok ())

/-- Opens a document; the session of the one opened before is let go. -/
def openDocument (site : Site) (name : ClientId) (document : DocumentId) :
    Site × Except RemoteError Unit :=
  let line := site.line name
  let (line, result) := DocumentSession.openSession (documentService document name) line document
    name line.link.connection
  let site := site.setLine name line
  match result with
  | .error error => (site.wake, .error error)
  | .ok session =>
      let id := site.nextId
      let site := { site with nextId := id + 1 }.setDocument id { owner := name, session }
      ((site.setClient name { site.client name with document := some id }).wake, .ok ())

def branchOf (site : Site) (name : ClientId) : Option BranchSession :=
  (site.client name).branch >>= fun id => (site.branches.get? id).map (·.session)

def documentOf (site : Site) (name : ClientId) : Option DocumentSession :=
  (site.client name).document >>= fun id => (site.documents.get? id).map (·.session)

/-! ## Calls to sessions -/

def newTicket (site : Site) : Site × Ticket :=
  ({ site with nextId := site.nextId + 1 }, site.nextId)

/-- Waits for an answer. -/
def await (site : Site) (ticket : Ticket) : Site × Reply :=
  let site := site.settle
  ({ site with replies := site.replies.erase ticket },
    (site.replies.get? ticket).getD (.refused .stopped))

/-- Sends a command to the branch session of a client; `false` if nobody takes it. -/
def postBranch (site : Site) (name : ClientId) (command : BranchCommand) : Site × Bool :=
  match (site.client name).branch with
  | none => (site, false)
  | some id =>
      match site.branches.get? id with
      | none => (site, false)
      | some hosted =>
          if hosted.session.stopped then (site, false)
          else
            let session := hosted.session.post command
            ((site.setBranch id { hosted with session }).wake, true)

def postDocument (site : Site) (name : ClientId) (command : DocumentCommand) :
    Site × Bool :=
  match (site.client name).document with
  | none => (site, false)
  | some id =>
      match site.documents.get? id with
      | none => (site, false)
      | some hosted =>
          if hosted.session.stopped then (site, false)
          else
            let session := hosted.session.post command
            ((site.setDocument id { hosted with session }).wake, true)

/-- Sends a command and waits for the answer. -/
def askBranch (site : Site) (name : ClientId) (command : Ticket → BranchCommand) :
    Site × Reply :=
  let (site, ticket) := site.newTicket
  match site.postBranch name (command ticket) with
  | (site, true) => site.await ticket
  | (site, false) => (site, .refused .stopped)

def askDocument (site : Site) (name : ClientId) (command : Ticket → DocumentCommand) :
    Site × Reply :=
  let (site, ticket) := site.newTicket
  match site.postDocument name (command ticket) with
  | (site, true) => site.await ticket
  | (site, false) => (site, .refused .stopped)

/-- Sends a command in the background. -/
def inBackground (site : Site) (name : ClientId) (command : Ticket → BranchCommand) :
    Site × Ticket :=
  let (site, ticket) := site.newTicket
  let call : Call := { session := (site.client name).branch, command := command ticket }
  ({ site with calls := site.calls.insert ticket call }.wake, ticket)

def commit (site : Site) (name : ClientId) (data : CommitData) : Site × Reply :=
  site.askBranch name (.commit data)

def resolve (site : Site) (name : ClientId) (resolution : ForkResolution) : Site × Reply :=
  site.askBranch name (.resolve resolution)

def edit (site : Site) (name : ClientId) (operation : Operation) : Site × Reply :=
  site.askDocument name (.edit operation)

/-! ## Taking what has happened -/

/-- Takes an answer that has arrived. -/
def takeReply (site : Site) (ticket : Ticket) : Site × Option Reply :=
  ({ site with replies := site.replies.erase ticket }, site.replies.get? ticket)

/-- Takes the events of a client's branch, and the number of those that were lost. -/
def takeEvents (site : Site) (name : ClientId) : Site × Nat × List SyncEvent :=
  match (site.client name).branch with
  | none => (site, 0, [])
  | some id =>
      match site.branches.get? id with
      | none => (site, 0, [])
      | some hosted =>
          let (events, dropped, items) := hosted.session.events.takeAll
          let session := { hosted.session with events }
          (site.setBranch id { hosted with session }, dropped, items)

/-- Takes what the listeners of a client heard. -/
def takeChanges (site : Site) (name : ClientId) : Site × List Text :=
  let client := site.client name
  (site.setClient name { client with changes := [] }, client.changes)

end Coauthor.Site
