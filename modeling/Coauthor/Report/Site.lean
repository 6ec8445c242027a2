import Coauthor.Report.Branch
import Coauthor.Report.Text
import Coauthor.Session.Rehearsal
import Coauthor.Site.Calls

/-!
# Reports of sessions and of the site

What can be seen of sessions, rooms and clients.  A session that has stopped can only
be reported as such.
-/

namespace Coauthor

namespace Welcome

def report (welcome : Welcome) : Json :=
  .object [("revision", .nat welcome.revision), ("content", welcome.content.toJson),
    ("missed", .array (welcome.missed.map AppliedOperation.toJson))]

end Welcome

namespace RehearsedCall

def report : RehearsedCall → Json
  | watch since => .object [("call", .string "watch"), ("since", .ofOption .nat since)]
  | send message => .object [("call", .string "send"), ("message", message.toJson)]
  | unwatch => .object [("call", .string "unwatch")]

end RehearsedCall

namespace DocumentSession

/-- How the session stands, with further entries if it has not stopped. -/
def report (session : DocumentSession) (more : List (String × Json)) : Json :=
  if session.stopped then SessionError.stopped.report
  else .object (session.document.reportEntries ++ ("closed", .bool session.closed) :: more)

end DocumentSession

namespace BranchSession

def report (session : BranchSession) : Json :=
  if session.stopped then SessionError.stopped.report else session.coordinator.reportHeads

end BranchSession

namespace Rooms

/-- The text and the revision of each room of a list that is open. -/
def report (rooms : Rooms) (ids : List DocumentId) : Json :=
  .object (ids.filterMap fun id =>
    (rooms.rooms.get? id).map fun room => (id, room.history.report))

end Rooms

namespace Model

def reportLoads (model : Model) : Json :=
  .array (model.loads.map fun load => .array [.string load.1, load.2.toJson])

end Model

namespace Site

/-- Events, behind the number of those that were lost before them. -/
def reportEvents (lost : Nat) (events : List SyncEvent) : Json :=
  let lagged : List Json := if lost = 0 then [] else [.object [("lagged", .nat lost)]]
  .array (lagged ++ events.map SyncEvent.report)

/-- Reports a client, and takes its events and what its listeners heard. -/
def reportClient (site : Site) (name : ClientId) : Site × Json :=
  let client := site.client name
  let connection := [("connection", client.link.connection.state.toJson)]
  let (site, branch) : Site × List (String × Json) := match site.branchOf name with
    | none => (site, [])
    | some session =>
        let (site, lost, events) := site.takeEvents name
        (site, [("branch", session.report), ("events", reportEvents lost events),
          ("loads", client.model.reportLoads)])
  let (site, document) : Site × List (String × Json) := match site.documentOf name with
    | none => (site, [])
    | some session =>
        let (site, changes) := site.takeChanges name
        (site, [
          ("document", session.report [("shown", session.document.content.toJson)]),
          ("changes", .array (changes.map Text.toJson))])
  (site, .object (connection ++ branch ++ document))

def reportClients (site : Site) : List ClientId → Site × List (String × Json)
  | [] => (site, [])
  | name :: rest =>
      let (site, client) := site.reportClient name
      let (site, clients) := site.reportClients rest
      (site, (name, client) :: clients)

end Site

end Coauthor
