import Coauthor.Report.Text
import Coauthor.Simulation.Report

/-!
# Views of simulations

What does not depend on the order in which clients acted, nor on the time at which
they did.
-/

namespace Coauthor.SimulationReport

def viewClient (report : SimulationReport) (client : ClientReport) : Json :=
  .object [
    ("clientId", .string client.client), ("status", client.status.toJson),
    ("forksAbandoned", .nat client.forksAbandoned), ("commitsLoaded", .nat client.commitsLoaded),
    ("text", client.text.toJson), ("atServerHead", .bool (client.head = report.serverHead))]

/-- The hash of a head depends on the time unless it is the first commit. -/
def timelessHead (report : SimulationReport) : Option CommitHash :=
  if report.commitsStored = 1 then some report.serverHead else none

def view (report : SimulationReport) : Json :=
  .object [
    ("serverText", report.serverText.toJson), ("commitsStored", .nat report.commitsStored),
    ("converged", .bool report.converged),
    ("serverHead", .ofOption .string report.timelessHead),
    ("clients", .array (report.clients.map report.viewClient))]

/-- What remains of a report when the order of the clients' turns is open. -/
def summary (report : SimulationReport) : Json :=
  .object [
    ("converged", .bool report.converged),
    ("letters", Text.toJson (report.serverText.mergeSort fun a b => a.toNat ≤ b.toNat)),
    ("agree", .bool (report.clients.all report.agreesWith))]

end Coauthor.SimulationReport
