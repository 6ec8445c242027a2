import Coauthor.Branch.Status
import Coauthor.Identifier
import Coauthor.Json.Pretty
import Coauthor.Quoted.Text
import Coauthor.Text.Operation

/-!
# Reports of simulations

How a simulation went: what the server has in the end, and how each client stands
against it.
-/

namespace Coauthor

structure ClientReport where
  client : ClientId
  head : CommitHash
  status : BranchStatus
  forksAbandoned : Nat
  commitsLoaded : Nat
  text : Text
  deriving DecidableEq, Repr, Inhabited

structure SimulationReport where
  serverHead : CommitHash
  serverText : Text
  commitsStored : Nat
  /-- The clients came to agree with the server. -/
  converged : Bool
  clients : List ClientReport
  deriving DecidableEq, Repr, Inhabited

namespace SimulationReport

/-- A client has the head and the text of the server. -/
def agreesWith (report : SimulationReport) (client : ClientReport) : Bool :=
  client.head = report.serverHead && client.text = report.serverText

def clientJson (client : ClientReport) : Json :=
  .object [
    ("clientId", .string client.client), ("head", .string client.head),
    ("status", client.status.toJson), ("forksAbandoned", .nat client.forksAbandoned),
    ("commitsLoaded", .nat client.commitsLoaded), ("text", .string (String.ofList client.text))]

def toJson (report : SimulationReport) : Json :=
  .object [
    ("serverHead", .string report.serverHead),
    ("serverText", .string (String.ofList report.serverText)),
    ("commitsStored", .nat report.commitsStored), ("converged", .bool report.converged),
    ("clients", .array (report.clients.map clientJson))]

/-- The name of a status in a report that is read by people. -/
def statusName : BranchStatus → String
  | .sync => "Sync"
  | .aheadSync => "AheadSync"
  | .aheadNotSync => "AheadNotSync"
  | .pulling => "Pulling"
  | .error => "Error"

def clientLine (report : SimulationReport) (client : ClientReport) : String :=
  let mark := if report.agreesWith client then "✓" else "✗"
  "   " ++ mark ++ " " ++ client.client ++ " " ++ statusName client.status ++ " loaded " ++
    toString client.commitsLoaded ++ " abandoned " ++ toString client.forksAbandoned

def verdict (report : SimulationReport) : String :=
  if report.converged then "✨ Converged all clients agree with the server"
  else "Diverged: clients disagree with the server"

/-- The report as lines of text. -/
def lines (report : SimulationReport) : List String :=
  ["",
    "🔁 Simulated " ++ toString report.clients.length ++ " client(s), " ++
      toString report.commitsStored ++ " commit(s) stored",
    "   Server head: " ++ report.serverHead,
    "   Server text: " ++ Quoted.quote (String.ofList report.serverText),
    ""] ++ report.clients.map report.clientLine ++ ["", report.verdict]

end SimulationReport

end Coauthor
