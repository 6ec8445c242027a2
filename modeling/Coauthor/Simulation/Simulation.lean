import Coauthor.Simulation.Report
import Coauthor.Simulation.Scenario
import Coauthor.Site.Calls

/-!
# Simulations

A scenario played on a site.  The clients take turns, and everyone goes on until nobody
has anything to do before the next client acts.  When the rounds are over, the clients
get time to agree with the server; a client that has forked gives its commits up.
-/

namespace Coauthor

inductive SimulationError where
  | session (error : SessionError)
  /-- A character could not be typed. -/
  | unplaced (client : ClientId) (round : Nat)
  | late (seconds : Nat)
  deriving DecidableEq, Repr, Inhabited

namespace SimulationError

def message : SimulationError → String
  | session error => error.message
  | unplaced client round => client ++ " could not place edit " ++ toString round
  | late seconds => "simulation did not finish within " ++ toString seconds ++ "s"

end SimulationError

structure Simulation where
  scenario : Scenario
  site : Site
  /-- How often each client gave its commits up. -/
  abandoned : Table ClientId Nat
  deriving Inhabited

namespace Simulation

abbrev Attempt := Except SimulationError Simulation

/-- The time between two looks at the site, in milliseconds. -/
def pause : Nat := 10

/-- How often a client tries to type a character. -/
def editAttempts : Nat := 50

/-- How often the clients are compared with the server. -/
def comparisons : Nat := 500

/-- How often a client tries to commit: no more pauses fit into the time. -/
def commitAttempts (scenario : Scenario) : Nat := scenario.timeout * 1000 / pause + 1

def start (scenario : Scenario) (settings : Settings) : Simulation :=
  let merger := if scenario.merge then Merger.snapshot else Merger.never
  let site := (Site.start merger settings scenario.clientNames).startReaper
  let site := site.createProject Scenario.project Scenario.branch Scenario.root
  { scenario, site := (site.openRoom Scenario.document []).settle, abandoned := ∅ }

def late (simulation : Simulation) : SimulationError := .late simulation.scenario.timeout

/-- Lets time pass, if there is any left. -/
def sleep (simulation : Simulation) (duration : Nat) : Attempt :=
  let site := (simulation.site.advance duration).settle
  if simulation.scenario.timeout * 1000 ≤ site.server.now then .error simulation.late
  else .ok { simulation with site }

/-- Lets every client act, one after the other. -/
def forClients (simulation : Simulation) (act : Simulation → Nat → Attempt) : Attempt :=
  (List.range simulation.scenario.clients).foldlM act simulation

/-- The branch session of a client, unless it has stopped. -/
def branchOf (simulation : Simulation) (name : ClientId) :
    Except SimulationError BranchSession :=
  match simulation.site.branchOf name with
  | none => .error (.session .stopped)
  | some session => if session.stopped then .error (.session .stopped) else .ok session

/-- What a client shows of the document. -/
def textOf (simulation : Simulation) (name : ClientId) : Text :=
  (simulation.site.documentOf name).elim [] (·.document.content)

/-- Takes the site over, if nothing was refused. -/
def accept (simulation : Simulation) (site : Site) : Reply → Attempt
  | .refused error => .error (.session error)
  | _ => .ok { simulation with site }

/-! ## What a client does -/

def join (simulation : Simulation) (index : Nat) : Attempt :=
  let name := Scenario.clientName index
  match simulation.site.openBranch name Scenario.project Scenario.branch with
  | (_, .error error) => .error (.session error)
  | (site, .ok ()) =>
      match site.settle.openDocument name Scenario.document with
      | (_, .error error) => .error (.session (.remote error))
      | (site, .ok ()) => .ok { simulation with site := site.settle }

def abandonFork (simulation : Simulation) (name : ClientId) : Attempt := do
  let (site, reply) := simulation.site.resolve name .abandon
  let simulation ← match reply with
    | .refused (.sync .busy) | .refused (.sync .notForked) => .ok { simulation with site }
    | reply => do
        let simulation ← simulation.accept site reply
        let count := (simulation.abandoned.get? name).getD 0 + 1
        return { simulation with abandoned := simulation.abandoned.insert name count }
  simulation.sleep pause

/-- Commits on top of whatever the local head is by then. -/
def commitWithin (index round : Nat) : Nat → Simulation → Attempt
  | 0, simulation => .error simulation.late
  | attempts + 1, simulation => do
      let name := Scenario.clientName index
      let session ← simulation.branchOf name
      if session.coordinator.isForked then
        commitWithin index round attempts (← simulation.abandonFork name)
      else
        let head := session.coordinator.branch.localHead
        let data := Scenario.change index round head simulation.site.server.now
        match simulation.site.commit name data with
        | (site, .refused (.sync error)) =>
            if error.isConflict then commitWithin index round attempts { simulation with site }
            else .error (.session (.sync error))
        | (site, reply) => simulation.accept (site.changeModel name (·.applyLocal data)) reply

def commit (simulation : Simulation) (index round : Nat) : Attempt :=
  commitWithin index round (commitAttempts simulation.scenario) simulation

/-- Types a character, again if the text has changed in the meantime. -/
def editWithin (index round : Nat) : Nat → Simulation → Attempt
  | 0, _ => .error (.unplaced (Scenario.clientName index) round)
  | attempts + 1, simulation =>
      let name := Scenario.clientName index
      let operation := Scenario.typing index round (simulation.textOf name).length
      match simulation.site.edit name operation with
      | (site, .refused (.operation _)) => editWithin index round attempts { simulation with site }
      | (site, reply) => simulation.accept site reply

def edit (simulation : Simulation) (index round : Nat) : Attempt :=
  editWithin index round editAttempts simulation

/-- Takes a client off the line for a while. -/
def interrupt (simulation : Simulation) (index : Nat) : Attempt := do
  let name := Scenario.clientName index
  let site := (simulation.site.disconnect name).settle
  let simulation ← { simulation with site }.sleep (2 * pause)
  return { simulation with site := (simulation.site.reconnect name).settle }

/-- The turn of a client in a round. -/
def act (round : Nat) (simulation : Simulation) (index : Nat) : Attempt := do
  let scenario := simulation.scenario
  let simulation ←
    if round < scenario.commits then simulation.commit index round else .ok simulation
  let simulation ←
    if round < scenario.edits then simulation.edit index round else .ok simulation
  if scenario.disconnect && index = 0 && round = scenario.interruption then
    simulation.interrupt index
  else return simulation

def work (simulation : Simulation) : Attempt :=
  (List.range simulation.scenario.rounds).foldlM (fun simulation round =>
    simulation.forClients (act round)) simulation

/-! ## Agreement -/

def serverHead (simulation : Simulation) : Except SimulationError (Option CommitHash) :=
  (simulation.site.server.store.branchHead Scenario.project Scenario.branch).mapError
    fun error => .session (.remote error)

def serverText (simulation : Simulation) : Option Text :=
  (simulation.site.server.rooms.rooms.get? Scenario.document).map (·.history.content)

/-- A client has nothing left to push and shows what the server has. -/
def isSettled (simulation : Simulation) (name : ClientId) (session : BranchSession)
    (head : Option CommitHash) (text : Option Text) : Bool :=
  let branch := session.coordinator.branch
  some branch.localHead = head && branch.commits.isEmpty && some (simulation.textOf name) = text

/-- Compares every client with the server. -/
def compare (simulation : Simulation) : Except SimulationError (Simulation × Bool) := do
  let head ← simulation.serverHead
  let text := simulation.serverText
  simulation.scenario.clientNames.foldlM (fun (simulation, settled) name => do
    let session ← simulation.branchOf name
    if session.coordinator.isForked then return (← simulation.abandonFork name, false)
    else return (simulation, settled && simulation.isSettled name session head text))
    (simulation, true)

/-- Compares the clients with the server until they agree. -/
def converge : Nat → Simulation → Except SimulationError (Simulation × Bool)
  | 0, simulation => .ok (simulation, false)
  | rounds + 1, simulation => do
      let (simulation, settled) ← simulation.compare
      if settled then return (simulation, true)
      else converge rounds (← simulation.sleep pause)

/-! ## The outcome -/

def reportClient (simulation : Simulation) (name : ClientId) :
    Except SimulationError ClientReport := do
  let branch := (← simulation.branchOf name).coordinator.branch
  return {
    client := name
    head := branch.localHead
    status := branch.status
    forksAbandoned := (simulation.abandoned.get? name).getD 0
    commitsLoaded := (simulation.site.client name).model.loads.length
    text := simulation.textOf name }

/-- The outcome, as it stands when the clients have been compared. -/
def report (simulation : Simulation) (converged : Bool) :
    Except SimulationError SimulationReport := do
  return {
    serverHead := (← simulation.serverHead).getD ""
    serverText := simulation.serverText.getD []
    commitsStored := simulation.site.server.store.commitCount Scenario.project
    converged
    clients := ← simulation.scenario.clientNames.mapM simulation.reportClient }

/-- Plays a scenario from its start to its end. -/
def run (scenario : Scenario) (settings : Settings) : Except SimulationError SimulationReport := do
  let simulation ← (start scenario settings).forClients join
  let (simulation, converged) ← converge comparisons (← simulation.work)
  simulation.report converged

end Simulation

end Coauthor
