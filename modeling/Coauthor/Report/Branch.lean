import Coauthor.Branch.Coordinator
import Coauthor.Report.Error

/-!
# Reports of branches

What can be seen of a branch, of the requests of its coordinator and of its events.
-/

namespace Coauthor

namespace CommitData

/-- The hashes of a queue. -/
def reportHashes (queue : List CommitData) : Json := Json.strings (queue.map hash)

end CommitData

namespace Branch

def report (branch : Branch) : Json :=
  .object [
    ("project", .string branch.project), ("name", .string branch.name),
    ("local", .string branch.localHead), ("origin", .string branch.originHead),
    ("inSync", .bool branch.inSync), ("status", branch.status.toJson),
    ("commits", CommitData.reportHashes branch.commits),
    ("updates", CommitData.reportHashes branch.updates),
    ("workers", .array (branch.workers.map Json.nat))]

end Branch

namespace Request

def report : Request → Json
  | push data => .object [("request", .string "Push"), ("data", data.toJson)]
  | deliver hash data reason =>
      .object [("request", .string "Deliver"), ("hash", .string hash),
        ("data", .ofOption CommitData.toJson data), ("reason", reason.toJson)]
  | subscribe => .object [("request", .string "Subscribe")]
  | fetchHead => .object [("request", .string "FetchBranchHash")]
  | findAncestor queued head =>
      .object [("request", .string "FindCommonAncestor"), ("queued", .string queued),
        ("head", .string head)]
  | store data => .object [("request", .string "Store"), ("data", data.toJson)]
  | createBranch name hash =>
      .object [("request", .string "CreateBranch"), ("name", .string name),
        ("hash", .string hash)]
  | setHead old new =>
      .object [("request", .string "SetBranchHash"), ("old", .ofOption .string old),
        ("new", .string new)]

end Request

namespace Phase

def report : Phase → Json
  | idle => .object [("phase", .string "Idle")]
  | pushing hash => .object [("phase", .string "Pushing"), ("hash", .string hash)]
  | pulling reason hash =>
      .object [("phase", .string "Pulling"), ("reason", reason.toJson), ("hash", .string hash)]
  | subscribing => .object [("phase", .string "Rejoining"), ("step", .string "Subscribing")]
  | fetchingHead => .object [("phase", .string "Rejoining"), ("step", .string "FetchingHead")]
  | findingAncestor head =>
      .object [("phase", .string "Rejoining"), ("step", .string "FindingAncestor"),
        ("head", .string head)]
  | resolving resolution stored =>
      .object [("phase", .string "Resolving"), ("resolution", resolution.toJson),
        ("stored", .nat stored)]

end Phase

namespace SyncEvent

def report : SyncEvent → Json
  | status current => .object [("event", .string "Status"), ("status", current.toJson)]
  | settled hash outcome =>
      .object [("event", .string "Settled"), ("hash", .string hash), ("status", outcome.toJson)]
  | forked localHead originHead =>
      .object [("event", .string "Forked"), ("local", .string localHead),
        ("origin", .string originHead)]
  | canceled dropped => .object [("event", .string "Canceled"), ("dropped", .strings dropped)]
  | forkCreated branchName hash =>
      .object [("event", .string "ForkCreated"), ("branchName", .string branchName),
        ("hash", .string hash)]
  | workersReleased requests head =>
      .object [("event", .string "WorkersReleased"),
        ("requests", .array (requests.map Json.nat)), ("head", .string head)]
  | failed error => .object (("event", .string "Failed") :: error.entries)

end SyncEvent

namespace Coordinator

/-- How the coordinator stands. -/
def reportEntries (coordinator : Coordinator) : List (String × Json) :=
  [("phase", coordinator.phase.report), ("forked", .bool coordinator.isForked),
    ("connected", .bool coordinator.connected),
    ("status", coordinator.branch.status.toJson), ("branch", coordinator.branch.report)]

/-- The heads of a branch in short. -/
def reportHeads (coordinator : Coordinator) : Json :=
  let branch := coordinator.branch
  .object [("local", .string branch.localHead), ("origin", .string branch.originHead),
    ("queued", .nat branch.commits.length), ("status", branch.status.toJson),
    ("forked", .bool coordinator.isForked), ("watched", branch.status.toJson)]

end Coordinator

end Coauthor
