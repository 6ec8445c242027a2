import Coauthor.Branch.Branch
import Coauthor.Branch.Exchange
import Coauthor.Connection

/-!
# The coordinator of a branch

The coordinator owns a branch and decides which round trip comes next.  Every input
gives a new state and at most one request; the answer to that request is an input
again.  A phase other than `idle` waits for exactly one answer, and only in the
phase `idle` is a request made on another occasion than an answer, so there is never
more than one round trip under way.

After a fault of the transport, and after every reconnect, the coordinator rejoins:
it subscribes, asks for the head of the server, and finds out whether the first
queued commit had arrived.
-/

namespace Coauthor

/-- What the coordinator is waiting for. -/
inductive Phase where
  | idle
  | pushing (hash : CommitHash)
  | pulling (reason : LoadReason) (hash : CommitHash)
  | subscribing
  | fetchingHead
  | findingAncestor (head : CommitHash)
  /-- So many queued commits have been stored for the resolution. -/
  | resolving (resolution : ForkResolution) (stored : Nat)
  deriving DecidableEq, Repr, Inhabited

/-- Why nothing is pushed or pulled. -/
inductive Halt where
  /-- The server went another way than this queued commit, which has been settled. -/
  | forked (hash : CommitHash)
  | failed
  deriving DecidableEq, Repr, Inhabited

structure Coordinator where
  branch : Branch
  phase : Phase
  halt : Option Halt
  connected : Bool
  /-- A rejoin is due as soon as nothing is under way. -/
  rejoinPending : Bool
  /-- What happened since the events were last taken, oldest first. -/
  events : List SyncEvent
  deriving Repr, Inhabited

namespace Coordinator

/-- A new state, and the request that goes with it. -/
abbrev Move := Coordinator × Option Request

def start (project : ProjectId) (name : BranchName) (head : CommitHash) : Coordinator :=
  { branch := .start project name head, phase := .idle, halt := none, connected := true,
    rejoinPending := false, events := [] }

def takeEvents (coordinator : Coordinator) : Coordinator × List SyncEvent :=
  ({ coordinator with events := [] }, coordinator.events)

/-- A fork resolution is awaited. -/
def isForked (coordinator : Coordinator) : Bool :=
  match coordinator.halt with
  | some (.forked _) => true
  | _ => false

/-! ## Small changes -/

def emit (coordinator : Coordinator) (event : SyncEvent) : Coordinator :=
  { coordinator with events := coordinator.events ++ [event] }

def settle (coordinator : Coordinator) (hash : CommitHash) (status : CommitStatus) :
    Coordinator :=
  coordinator.emit (.settled hash status)

def settleAll (coordinator : Coordinator) (hashes : List CommitHash) (status : CommitStatus) :
    Coordinator :=
  { coordinator with events := coordinator.events ++ hashes.map (.settled · status) }

/-- Takes a commit of the server as the head; queued commits then stand beside it. -/
def adopt (coordinator : Coordinator) (hash : CommitHash) : Coordinator :=
  let branch := { coordinator.branch with originHead := hash }
  { coordinator with branch :=
      if branch.commits.isEmpty then { branch with localHead := hash, inSync := true }
      else { branch with inSync := false } }

/-- Counts the first queued commit as the head of the server. -/
def confirm (coordinator : Coordinator) (hash : CommitHash) : Coordinator :=
  { coordinator with
    branch := { coordinator.branch.dropCommit with originHead := hash, inSync := true } }
  |>.settle hash .synced

/-- The commits that a drained queue still has to settle: a commit that caused the
fork was settled then. -/
def unsettled (coordinator : Coordinator) : List CommitHash :=
  let hashes := coordinator.branch.commits.map (·.hash)
  match coordinator.halt with
  | some (.forked hash) => hashes.filter (· ≠ hash)
  | _ => hashes

/-- Empties the queue and leaves a fork. -/
def settleQueue (coordinator : Coordinator) (status : CommitStatus) : Coordinator :=
  { coordinator.settleAll coordinator.unsettled status with
    halt := if coordinator.isForked then none else coordinator.halt
    branch := { coordinator.branch with commits := [] } }

def followOrigin (coordinator : Coordinator) : Coordinator :=
  { coordinator with
    branch := { coordinator.branch with
      localHead := coordinator.branch.originHead, inSync := true } }

/-- Empties the queue, leaves a fork and goes back to the head of the server. -/
def resetToOrigin (coordinator : Coordinator) (status : CommitStatus) : Coordinator :=
  (coordinator.settleQueue status).followOrigin

/-- Stops with an error; a fork that is not resolved stays the reason to stop. -/
def fail (coordinator : Coordinator) (error : SyncError) : Move :=
  ({ coordinator with
      halt := if coordinator.isForked then coordinator.halt else some .failed }
    |>.emit (.failed error), none)

/-! ## The next request -/

def push (coordinator : Coordinator) (data : CommitData) : Move :=
  ({ coordinator with phase := .pushing data.hash }, some (.push data))

def pull (coordinator : Coordinator) (hash : CommitHash) (data : Option CommitData)
    (reason : LoadReason) : Move :=
  ({ coordinator with phase := .pulling reason hash }, some (.deliver hash data reason))

/-- Pushes the first queued commit, else loads the first announced head that is not a
head already. -/
def work (coordinator : Coordinator) : Move :=
  match coordinator.branch.commits with
  | data :: _ => coordinator.push data
  | [] =>
      let branch := coordinator.branch
      let coordinator := { coordinator with
        branch := { branch with updates := branch.updates.dropWhile (branch.isHead ·.hash) } }
      match coordinator.branch.firstUpdate? with
      | some data => coordinator.pull data.hash data .update
      | none => (coordinator, none)

/-- What comes next when nothing is under way. -/
def next (coordinator : Coordinator) : Move :=
  if coordinator.phase ≠ .idle ∨ coordinator.connected = false then (coordinator, none)
  else if coordinator.rejoinPending then
    ({ coordinator with rejoinPending := false, phase := .subscribing }, some .subscribe)
  else if coordinator.halt.isSome then (coordinator, none)
  else coordinator.work

/-- Rejoins at the next opportunity, because the transport failed. -/
def interrupted (coordinator : Coordinator) : Move :=
  { coordinator with rejoinPending := true }.next

/-- Asks for the head of the server, now or when the connection is back. -/
def refreshHead (coordinator : Coordinator) : Move :=
  if coordinator.connected then
    ({ coordinator with phase := .fetchingHead }, some .fetchHead)
  else ({ coordinator with rejoinPending := true }, none)

def catchUp (coordinator : Coordinator) (head : CommitHash) (data : Option CommitData) : Move :=
  coordinator.pull head data .catchUp

/-- The server went another way than `hash`.  The head it went to is known after a
rejoin; otherwise the last confirmed head is named. -/
def fork (coordinator : Coordinator) (hash : CommitHash) (head : Option CommitHash) : Move :=
  ({ coordinator with
      branch := { coordinator.branch with inSync := false }
      halt := some (.forked hash) }
    |>.settle hash .forked
    |>.emit (.forked coordinator.branch.localHead (head.getD coordinator.branch.originHead)), none)

/-- The server dropped the first queued commit, and with it all that were made on it. -/
def cancelQueue (coordinator : Coordinator) : Move :=
  let dropped := coordinator.branch.commits.map (·.hash)
  { coordinator with branch := { coordinator.branch with commits := [] } }.followOrigin
    |>.settleAll dropped .canceled
    |>.emit (.canceled dropped)
    |>.refreshHead

/-! ## Answers -/

def onPushed (coordinator : Coordinator) (hash : CommitHash) :
    Except RemoteError CommitResponse → Move
  | .error error =>
      if error.isTransport then coordinator.interrupted else coordinator.fail (.remote error)
  | .ok response =>
      if response.hash ≠ hash then coordinator.fail (.ackMismatch hash response.hash)
      else match response.status?, response.mergeHash with
        | none, _ => coordinator.fail (.unexpectedStatus response.status)
        | some .synced, _ => (coordinator.confirm hash).next
        | some .merged, none => coordinator.fail .missingMergeHash
        | some .merged, some mergeHash =>
            { coordinator with
              branch := { coordinator.branch.dropCommit with originHead := mergeHash } }
            |>.settle hash .merged
            |>.pull mergeHash none .merge
        | some .forked, _ => coordinator.fork hash none
        | some .canceled, _ => coordinator.cancelQueue

def onDelivered (coordinator : Coordinator) (reason : LoadReason) (hash : CommitHash) :
    Except DeliveryError Unit → Move
  | .ok () =>
      let coordinator :=
        if reason = .update then { coordinator with branch := coordinator.branch.dropUpdate }
        else coordinator
      (coordinator.adopt hash).next
  | .error error =>
      if error.isTransport then coordinator.interrupted
      else coordinator.fail (.loadRejected hash error.message)

def rejoinFailed (coordinator : Coordinator) (error : RemoteError) : Move :=
  if error.isTransport then coordinator.interrupted else coordinator.fail (.remote error)

/-- A stopped coordinator only listens again; any other goes on with the head. -/
def onSubscribed (coordinator : Coordinator) : Except RemoteError Unit → Move
  | .error error => coordinator.rejoinFailed error
  | .ok () =>
      if coordinator.halt.isSome then coordinator.next
      else ({ coordinator with phase := .fetchingHead }, some .fetchHead)

/-- The first queued commit is part of the server's history. -/
def acknowledgeRejoined (coordinator : Coordinator) (queued head : CommitHash) : Move :=
  let coordinator := coordinator.confirm queued
  if coordinator.branch.commits.isEmpty = false ∨ head = queued then coordinator.next
  else coordinator.catchUp head none

/-- Compares the head of the server with what is held here. -/
def reconcile (coordinator : Coordinator) (head : CommitHash) : Move :=
  match coordinator.branch.commits with
  | [] =>
      let announced := coordinator.branch.updates.find? (·.hash = head)
      let coordinator := { coordinator with branch := { coordinator.branch with updates := [] } }
      if head = coordinator.branch.localHead then coordinator.next
      else coordinator.catchUp head announced
  | queued :: _ =>
      if queued.hash = head then coordinator.acknowledgeRejoined queued.hash head
      else ({ coordinator with phase := .findingAncestor head },
        some (.findAncestor queued.hash head))

def onHead (coordinator : Coordinator) : Except RemoteError (Option CommitHash) → Move
  | .error error => coordinator.rejoinFailed error
  | .ok none => coordinator.fail (.branchMissing coordinator.branch.name)
  | .ok (some head) => coordinator.reconcile head

/-- A queued commit that the server does not know never arrived; one that is an
ancestor of the head did; any other went another way. -/
def onAncestor (coordinator : Coordinator) (head : CommitHash)
    (result : Except RemoteError CommitHash) : Move :=
  match coordinator.branch.commits, result with
  | [], _ => coordinator.next
  | queued :: _, .ok ancestor =>
      if ancestor = queued.hash then coordinator.acknowledgeRejoined queued.hash head
      else coordinator.fork queued.hash head
  | queued :: _, .error (.notFound _) => coordinator.push queued
  | _ :: _, .error error => coordinator.rejoinFailed error

/-- Stores the queued commits one at a time, then carries the resolution out. -/
def storeNext (coordinator : Coordinator) (resolution : ForkResolution) (stored : Nat) : Move :=
  let waiting := { coordinator with phase := .resolving resolution stored }
  match coordinator.branch.commits[stored]? with
  | some data => (waiting, some (.store data.withoutBranch))
  | none =>
      match resolution with
      | .fork branchName => (waiting, some (.createBranch branchName coordinator.branch.localHead))
      | .forcePush => (waiting, some (.setHead none coordinator.branch.localHead))
      | .abandon => (coordinator.resetToOrigin .canceled).refreshHead

def resolutionFailed (coordinator : Coordinator) (error : SyncError) : Move :=
  (coordinator.emit (.failed error)).next

def resolutionRefused (coordinator : Coordinator) (error : RemoteError) : Move :=
  { coordinator with rejoinPending := coordinator.rejoinPending || error.isTransport }
    |>.resolutionFailed (.remote error)

def onBranchCreated (coordinator : Coordinator) (branchName : BranchName) : Move :=
  coordinator.emit (.forkCreated branchName coordinator.branch.localHead)
    |>.resetToOrigin .forked
    |>.refreshHead

def onHeadSet (coordinator : Coordinator) (response : CommitResponse) : Move :=
  match response.status? with
  | some .synced =>
      let settled := coordinator.settleQueue .synced
      { settled with
        branch := { settled.branch with
          originHead := coordinator.branch.localHead, inSync := true } }.next
  | _ => coordinator.resolutionFailed (.unexpectedStatus response.status)

/-- Takes an answer in the phase that waits for it; `none` if it does not fit. -/
def answer? (coordinator : Coordinator) (phase : Phase) (response : Response) : Option Move :=
  match phase, response with
  | .pushing hash, .pushed result => some (coordinator.onPushed hash result)
  | .pulling reason hash, .delivered result => some (coordinator.onDelivered reason hash result)
  | .subscribing, .subscribed result => some (coordinator.onSubscribed result)
  | .fetchingHead, .head result => some (coordinator.onHead result)
  | .findingAncestor head, .ancestor result => some (coordinator.onAncestor head result)
  | .resolving resolution stored, .stored (.ok _) =>
      some (coordinator.storeNext resolution (stored + 1))
  | .resolving (.fork branchName) _, .branchCreated (.ok ()) =>
      some (coordinator.onBranchCreated branchName)
  | .resolving .forcePush _, .headSet (.ok response) => some (coordinator.onHeadSet response)
  | .resolving .., .stored (.error error) => some (coordinator.resolutionRefused error)
  | .resolving .., .branchCreated (.error error) => some (coordinator.resolutionRefused error)
  | .resolving .., .headSet (.error error) => some (coordinator.resolutionRefused error)
  | _, _ => none

/-! ## Inputs -/

/-- Lets waiting requests run once no commit is queued and no merge is being loaded. -/
def releaseWorkers (coordinator : Coordinator) : Coordinator :=
  let merging := match coordinator.phase with
    | .pulling .merge _ => true
    | _ => false
  let branch := coordinator.branch
  if branch.commits.isEmpty ∧ merging = false ∧ branch.workers.isEmpty = false then
    { coordinator with branch := { branch with workers := [] } }
      |>.emit (.workersReleased branch.workers branch.localHead)
  else coordinator

/-- How the branch stands. -/
def currentStatus (coordinator : Coordinator) : BranchStatus :=
  match coordinator.halt, coordinator.phase with
  | some .failed, _ => .error
  | _, .pulling .. => .pulling
  | _, _ =>
      if coordinator.branch.commits.isEmpty then .sync
      else if coordinator.branch.inSync then .aheadSync
      else .aheadNotSync

/-- Tells of a change of status. -/
def refreshStatus (coordinator : Coordinator) : Coordinator :=
  let status := coordinator.currentStatus
  if coordinator.branch.status = status then coordinator
  else { coordinator with branch := { coordinator.branch with status } }.emit (.status status)

/-- What every input ends with. -/
def finish (move : Move) : Move := (move.1.releaseWorkers.refreshStatus, move.2)

/-- Queues a commit that was made on the local head. -/
def commitLocally (coordinator : Coordinator) (data : CommitData) : Except SyncError Move :=
  if data.commit.parent? = some coordinator.branch.localHead then
    .ok (finish { coordinator with
      branch := { coordinator.branch.queueCommit data with localHead := data.hash } }.next)
  else .error (.staleParent coordinator.branch.localHead data.commit.parent?)

/-- Queues an announced head, unless it is known already. -/
def remoteUpdate (coordinator : Coordinator) (data : CommitData) : Move :=
  if coordinator.branch.knows data.hash then (coordinator, none)
  else finish { coordinator with branch := coordinator.branch.queueUpdate data }.next

def connectionChanged (coordinator : Coordinator) (state : ConnectionState) : Move :=
  finish <| match state with
    | .connected => { coordinator with connected := true }.next
    | .reconnected => { coordinator with connected := true, rejoinPending := true }.next
    | .disconnected | .reconnecting | .error =>
        ({ coordinator with connected := false, rejoinPending := true }, none)

/-- Takes the answer to the request made last; any other answer changes nothing. -/
def handle (coordinator : Coordinator) (response : Response) : Move :=
  finish (({ coordinator with phase := .idle }.answer? coordinator.phase response).getD
    (coordinator, none))

def resolveFork (coordinator : Coordinator) (resolution : ForkResolution) :
    Except SyncError Move :=
  if coordinator.isForked = false then .error .notForked
  else if coordinator.phase ≠ .idle then .error .busy
  else .ok (finish (match resolution with
    | .abandon => (coordinator.resetToOrigin .canceled).refreshHead
    | resolution => coordinator.storeNext resolution 0))

/-- Goes on after an error. -/
def retry (coordinator : Coordinator) : Move :=
  if coordinator.halt ≠ some .failed then (coordinator, none)
  else
    let coordinator := { coordinator with halt := none }
    finish (if coordinator.phase = .idle ∧ coordinator.connected ∧
        coordinator.rejoinPending = false ∧ coordinator.branch.commits.isEmpty then
      coordinator.refreshHead
    else coordinator.next)

/-- Registers a request that may run once no commit is queued. -/
def queueWorker (coordinator : Coordinator) (request : Nat) : Coordinator :=
  { coordinator with branch := coordinator.branch.queueWorker request }.releaseWorkers

end Coordinator

end Coauthor
